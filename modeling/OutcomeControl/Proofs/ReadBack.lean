import OutcomeControl.Command.Run
import OutcomeControl.Proofs.Files
import OutcomeControl.Proofs.Literals

/-! What the `lift` command emits can be read again.

The numbers of the emitted program are numbers of the program that was read
(`Compilation.doubles_lower`), so they are finite, and the text spells the emitted program
(`Command.decodeText_render`). Two things can go wrong. The number that is written for a finite double
may be read as a neighbour of it, as `0.9452706955539223` is, and a program with such a double is read
back as another one; so the doubles of the program are asked to be `Double.Legible`. And the text can be
too deep: each arm of a chain of `elif`s is lowered into the `else` of the arm before it, which opens six
more arrays and objects. `Command.readCompilation_lift` says that nothing else goes wrong, on any disk,
and `Sample.elifs_not_read_back` that nineteen arms are too many. -/

namespace OutcomeControl

open Formatted (encode decodeText)

/-- The numbers of a program that was read are finite, and lowering makes no number up. -/
theorem Compilation.legible_lower {text : String} {c : Compilation} (h : decodeText text = .ok c)
    (hd : ∀ x ∈ c.doubles, (Numeral.ofDouble Numeral.jsonText x).toDouble? = some x)
    (options : Options) : ∀ x ∈ (c.lower options).result.doubles, x.Legible := by
  intro x hx
  have hmem : x ∈ c.doubles := doubles_lower c options hx
  obtain ⟨a, hdecode, hcomplete⟩ := Except.of_bind_ok h
  obtain rfl : a = c := by
    split at hcomplete
    · exact Except.ok.inj hcomplete
    · cases hcomplete
  have hfinite := (conforms_of_decode hdecode).2 x
  rw [doubles_toValue] at hfinite
  exact ⟨hfinite hmem, hd x hmem⟩

namespace Command

theorem decodeText_render (c : Compilation) (hd : ∀ x ∈ c.doubles, x.Legible) :
    decodeText (Emit.render c .json) = within nestingLimit (encode c).depth c := by
  rw [← Compilation.doubles_toValue] at hd
  exact Formatted.decodeText_pretty c hd "\n" (.newline []) rfl

/-! ### Runs on files in memory -/

section
variable {α : Type} (d : Disk) (input path : String) (config : Option String)

theorem run_read (f : Except StorageFault String → ExceptT Failure (StateM Disk) α) :
    (liftM (Disk.host.read path) >>= f).run.run d = (f (d.read path)).run.run d := rfl

theorem run_isFile (f : Bool → ExceptT Failure (StateM Disk) α) :
    (liftM (Disk.host.isFile path) >>= f).run.run d = (f (d.isFile path)).run.run d := rfl

theorem run_write (text : String) :
    (Disk.host.write path text).run d = match d.write path text with
      | .ok d' => (.ok (), d')
      | .error fault => (.error fault, d) := by
  simp only [Disk.host, StateT.run_bind, StateT.run_get, pure_bind]
  cases d.write path text <;> rfl

theorem run_readCompilation :
    (readCompilation Disk.host path).run.run d =
      (match d.read path with
        | .error fault => .error (.unreadable path fault)
        | .ok text => (decodeText text).mapError (.invalid path), d) := by
  rw [readCompilation, run_read]
  cases d.read path with
  | error fault => rfl
  | ok text => cases hdecode : decodeText (α := Compilation) text <;> simp only [hdecode] <;> rfl

theorem run_readSettings : ((readSettings Disk.host path).run.run d).2 = d := by
  rw [readSettings, run_read]
  cases d.read path with
  | error fault => rfl
  | ok text => cases hsettings : Settings.ofText text <;> simp only [hsettings] <;> rfl

/-- Reading changes no file. -/
theorem run_loadSettings : ((loadSettings Disk.host input config).run.run d).2 = d := by
  unfold loadSettings
  split
  · exact run_readSettings ..
  · split
    · rw [run_isFile]
      split
      · exact run_readSettings ..
      · rfl
    · rfl

variable {c : Compilation} {settings : Settings}

theorem decodeText_of_readCompilation (hc : ((readCompilation Disk.host input).run.run d).1 = .ok c) :
    ∃ text, decodeText text = .ok c := by
  rw [run_readCompilation] at hc
  split at hc
  · cases hc
  next text _ =>
    cases hdecode : decodeText (α := Compilation) text with
    | ok a =>
      rw [hdecode] at hc
      exact ⟨text, hdecode.trans (congrArg _ (Except.ok.inj hc))⟩
    | error fault =>
      rw [hdecode] at hc
      cases hc

theorem run_bind {β : Type} {x : ExceptT Failure (StateM Disk) α}
    {f : α → ExceptT Failure (StateM Disk) β} {a : α} {d' : Disk} (h : x.run.run d = (.ok a, d')) :
    (x >>= f).run.run d = (f a).run.run d' := by
  change (ExceptT.bindCont f (x.run.run d).1).run (x.run.run d).2 = _
  rw [h]
  rfl

/-- What a run prints or writes once the program and the configuration are read. -/
theorem run_lift (hc : ((readCompilation Disk.host input).run.run d).1 = .ok c)
    (hsettings : ((loadSettings Disk.host input config).run.run d).1 = .ok settings)
    (output : Option String) (emit : Emit) :
    (lift Disk.host input output config emit).run d =
      let done := c.lower { settings }
      let log := lowerLog input c done
      match output with
      | none => ({ output := emit.render done.result, log }, d)
      | some path => match d.write path (emit.render done.result) with
        | .ok d' => ({ log }, d')
        | .error fault => ({ log, failure := some (.unwritable path fault) }, d) := by
  have hread : (readCompilation Disk.host input).run.run d = (.ok c, d) :=
    Prod.ext hc (by rw [run_readCompilation])
  have hload : (loadSettings Disk.host input config).run.run d = (.ok settings, d) :=
    Prod.ext hsettings (run_loadSettings d input config)
  have hprepare : (do let c ← readCompilation Disk.host input
                      return (c, ← loadSettings Disk.host input config) :
      ExceptT Failure (StateM Disk) (Compilation × Settings)).run.run d = (.ok (c, settings), d) :=
    (run_bind d hread).trans (run_bind d hload)
  unfold lift
  simp only [StateT.run_bind, hprepare]
  cases output with
  | none => rfl
  | some path =>
    change (Disk.host.write path _ >>= _).run d = _
    rw [StateT.run_bind, run_write]
    dsimp only
    cases d.write path (emit.render (c.lower { settings }).result) <;> rfl

/-- **What `lift` emits is read back, unless lowering nested it too deep**, for a program whose doubles
are read back from their numbers. The text, printed or in the file that was written, is accepted
exactly when no more than `nestingLimit` arrays and objects are open in it at once, and then it spells
the lowered program. -/
theorem readCompilation_lift (hc : ((readCompilation Disk.host input).run.run d).1 = .ok c)
    (hsettings : ((loadSettings Disk.host input config).run.run d).1 = .ok settings)
    (hd : ∀ x ∈ c.doubles, (Numeral.ofDouble Numeral.jsonText x).toDouble? = some x) :
    let done := c.lower { settings }
    let text := Emit.render done.result .json
    let log := lowerLog input c done
    let again := within nestingLimit (encode done.result).depth done.result
    (lift Disk.host input none config .json).run d = ({ output := text, log }, d) ∧
      decodeText text = again ∧
      ∀ path d', d.write path text = .ok d' →
        (lift Disk.host input (some path) config .json).run d = ({ log }, d') ∧
          (readCompilation Disk.host path).run.run d' = (again.mapError (.invalid path), d') := by
  intro done text log again
  have htext : decodeText text = again := by
    obtain ⟨read, hread⟩ := decodeText_of_readCompilation d input hc
    exact decodeText_render done.result (Compilation.legible_lower hread hd _)
  refine ⟨run_lift d input config hc hsettings none .json, htext, ?_⟩
  intro path d' hwrite
  constructor
  · rw [run_lift d input config hc hsettings (some path) .json]
    dsimp only
    rw [hwrite]
  · rw [run_readCompilation, Disk.read_write hwrite]
    dsimp only
    rw [htext]

end

end Command

namespace Sample

/-- `if true { } elif true { } …` with `n` arms, after other statements. -/
def elifs (before : List Statement) (n : Nat) : Compilation :=
  { namespaces :=
      [⟨"Sample",
        [.callable (operation "Main" (.provided (.tuple [q.toParams, r.toParams])
          ⟨before ++ [.conditional (List.replicate n (⟨.bool true, { ty := .bool }⟩, ⟨[], []⟩)) none],
            [q, r]⟩))]⟩] }

/-- The program is in the file `p`, and the file `c` has a configuration that sets nothing. -/
def files : Command.Disk :=
  ⟨[(["p"], .file (Command.Emit.render (elifs [angle] 18) .json).toUTF8), (["c"], .file "".toUTF8)]⟩

section
open Command Disk

theorem parts_letter {path : String} (h : path = "p" ∨ path = "c") : parts path = ([], [path]) := by
  obtain rfl | rfl := h
  all_goals
    rw [parts, String.splitOn, if_neg (by decide), String.splitOnAux, if_neg (by decide),
      if_neg (by decide), String.splitOnAux, if_pos (by decide)]
    decide

theorem read_files : files.read "p" = .ok (Emit.render (elifs [angle] 18) .json) ∧
    files.read "c" = .ok "" := by
  constructor
  · exact read_of_get? (p := ["p"]) (by unfold resolve; rw [parts_letter (.inl rfl)]; rfl) rfl
  · exact read_of_get? (p := ["c"]) (by unfold resolve; rw [parts_letter (.inr rfl)]; rfl) rfl

theorem write_files (text : String) :
    files.write "p" text = .ok (files.put ["p"] (.file text.toUTF8)) := by
  unfold files
  rw [write, parts_letter (.inl rfl)]
  rfl

end

end Sample

open Command in
/-- The emitted program takes the place of the program that was read. -/
theorem Sample.elifs_read_back :
    ((readCompilation Disk.host "p").run.run files).1 = .ok (elifs [angle] 18) ∧
      ((loadSettings Disk.host "p" (some "c")).run.run files).1 = .ok {} ∧
      (elifs [angle] 18).doubles = [⟨0x3FB999999999999A⟩] ∧
      (encode ((elifs [angle] 18).lower {}).result).depth = 123 ∧
      ∃ log files', (lift Disk.host "p" (some "p") (some "c") .json).run files = ({ log }, files') ∧
        (readCompilation Disk.host "p").run.run files' =
          (.ok ((elifs [angle] 18).lower {}).result, files') := by
  have hdoubles : (elifs [angle] 18).doubles = [⟨0x3FB999999999999A⟩] := by decide +kernel
  have hlegible : ∀ x ∈ (elifs [angle] 18).doubles, x.Legible := by
    rw [hdoubles]
    intro x hx
    obtain rfl := List.mem_singleton.mp hx
    exact ⟨by decide +kernel, by decide +kernel⟩
  have hread : ((readCompilation Disk.host "p").run.run files).1 = .ok (elifs [angle] 18) := by
    have hdepth : (encode (elifs [angle] 18)).depth = 21 := by decide +kernel
    rw [run_readCompilation, read_files.1]
    dsimp only
    rw [decodeText_render _ hlegible, hdepth]
    rfl
  have hsettings : ((loadSettings Disk.host "p" (some "c")).run.run files).1 = .ok {} := by
    rw [loadSettings, readSettings, run_read, read_files.2]
    rfl
  have hdepth : (encode ((elifs [angle] 18).lower {}).result).depth = 123 := by decide +kernel
  obtain ⟨_, _, hwritten⟩ :=
    readCompilation_lift files "p" (some "c") hread hsettings fun x hx => (hlegible x hx).readsBack
  obtain ⟨hlift, hagain⟩ := hwritten "p" _ (write_files _)
  rw [hdepth] at hagain
  exact ⟨hread, hsettings, hdoubles, hdepth, _, _, hlift, hagain⟩

open Command in
/-- With one more arm the program is accepted, and what it is lowered to is not. -/
theorem Sample.elifs_not_read_back :
    decodeText (Emit.render (elifs [] 19) .json) = .ok (elifs [] 19) ∧
      decodeText (Emit.render ((elifs [] 19).lower {}).result .json) =
        (.error .tooDeep : Except Fault Compilation) := by
  have hdoubles : (elifs [] 19).doubles = [] := by decide +kernel
  have hlowered : ((elifs [] 19).lower {}).result.doubles = [] := by decide +kernel
  have hdepth : (encode (elifs [] 19)).depth = 21 := by decide +kernel
  have hdeep : (encode ((elifs [] 19).lower {}).result).depth = 129 := by decide +kernel
  constructor
  · rw [decodeText_render _ (by rw [hdoubles]; exact fun _ => nofun), hdepth]
    rfl
  · rw [decodeText_render _ (by rw [hlowered]; exact fun _ => nofun), hdeep]
    rfl

end OutcomeControl
