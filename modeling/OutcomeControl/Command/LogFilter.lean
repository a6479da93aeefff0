import OutcomeControl.Command.Log
import OutcomeControl.Pattern.Meaning

/-! The choice of what is shown of a log.

A specification lists directives with commas between them, and perhaps a pattern after a slash. Parts
of it that make no sense are ignored with a warning. -/

namespace OutcomeControl.Command

/-- Up to which rank entries are shown whose topics start with `topic`, or all entries. -/
structure Directive where
  topic : Option String
  rank : Nat
deriving DecidableEq

/-- What is wrong with a part of a specification. -/
inductive SpecificationFault where
  | slashes (specification : String)
  | directive (part : String)
  | pattern (text : String) (fault : Pattern.Fault)

def SpecificationFault.warning (f : SpecificationFault) : String :=
  "warning: " ++ (match f with
    | .slashes s => "invalid logging spec '" ++ s ++ "' (too many '/'s)"
    | .directive part => "invalid logging spec '" ++ part ++ "'"
    | .pattern text fault => "invalid regex filter - " ++ fault.message text) ++ ", ignoring it\n"

namespace Directive

def rankOf? (s : String) : Option Nat :=
  if s.toLower == "off" then some 0
  else ([Level.error, .warn, .info, .debug, .trace].find? fun l => l.text == s.toUpper).map Level.rank

/-- A level for all topics, a topic of which all is shown, or a topic with its level. -/
def ofText (s : String) : Except SpecificationFault Directive := match s.splitOn "=" with
  | [word] => match rankOf? word with
    | some rank => .ok ⟨none, rank⟩
    | none => .ok ⟨some word, Level.trace.rank⟩
  | [topic, level] =>
    let level := Text.trim level
    if level.isEmpty then .ok ⟨some topic, Level.trace.rank⟩
    else match rankOf? level with
      | some rank => .ok ⟨some topic, rank⟩
      | none => .error (.directive level)
  | _ => .error (.directive s)

/-- The last directive for a topic counts, in the place of the first one. -/
def add (ds : List Directive) (d : Directive) : List Directive :=
  if ds.any (·.topic = d.topic) then ds.map fun e => if e.topic = d.topic then d else e
  else ds ++ [d]

def isFor (d : Directive) (topic : String) : Bool := d.topic.all (topic.startsWith ·)

/-- How much of a topic a directive names. -/
def length (d : Directive) : Nat := (d.topic.getD "").length

/-- The better match for a topic: the longer one, or the later of two that are as long. -/
def better (topic : String) (best : Option Directive) (d : Directive) : Option Directive :=
  if d.isFor topic && best.all (·.length ≤ d.length) then some d else best

end Directive

structure LogFilter where
  directives : List Directive
  /-- Occurs in all messages that are shown. -/
  pattern : Option Pattern := none

namespace LogFilter

/-- Only errors are shown. -/
def default : LogFilter := ⟨[⟨none, Level.error.rank⟩], none⟩

/-- The parts of a list of directives. -/
def partsOf (s : String) : List (Except SpecificationFault Directive) :=
  (((s.splitOn ",").map Text.trim).filter (!·.isEmpty)).map Directive.ofText

def directivesOf (parts : List (Except SpecificationFault Directive)) : List Directive :=
  match (parts.filterMap Except.toOption).foldl Directive.add [] with
  | [] => default.directives
  | ds => ds

def faultsOf (parts : List (Except SpecificationFault Directive)) : List SpecificationFault :=
  parts.filterMap fun
    | .error e => some e
    | .ok _ => none

/-- The filter that a specification gives, and what is ignored of it. -/
def ofText (s : String) : LogFilter × List SpecificationFault := match s.splitOn "/" with
  | [list] =>
    let parts := partsOf list
    (⟨directivesOf parts, none⟩, faultsOf parts)
  | [list, text] =>
    let parts := partsOf list
    match Pattern.ofText text with
    | .ok p => (⟨directivesOf parts, some p⟩, faultsOf parts)
    | .error e => (⟨directivesOf parts, none⟩, faultsOf parts ++ [.pattern text e])
  | _ => (default, [.slashes s])

def shows (f : LogFilter) (e : LogEntry) : Bool :=
  (f.directives.foldl (Directive.better e.topic) none).any (e.level.rank ≤ ·.rank)
    && f.pattern.all (·.occursIn e.message)

/-- The lines of the entries that are shown. -/
def text (f : LogFilter) (entries : List LogEntry) : String :=
  String.join ((entries.filter f.shows).map LogEntry.line)

end LogFilter

end OutcomeControl.Command
