import OutcomeControl.Command.Disk
import OutcomeControl.Proofs.Conformance

/-! A file that was written can be read.

Writing adds one file, at a place where no directory is. So every directory is still one
(`Disk.get?_put_of_directory`), a path leads where it led (`Disk.walk_put`), and the path of the
write now leads to the new file (`Disk.read_write`). -/

namespace OutcomeControl.Command.Disk

theorem enter_ok_iff {d : Disk} {p : Place} : d.enter p = .ok () ↔ d.get? p = some .directory := by
  unfold enter
  split <;> simp_all [pure, Except.pure, throw, throwThe, MonadExceptOf.throw]

/-- A file takes the place of no directory. -/
theorem get?_put_of_directory {d : Disk} {p q : Place} {bytes : ByteArray}
    (hp : d.get? p ≠ some .directory) (hq : d.get? q = some .directory) :
    (d.put p (.file bytes)).get? q = some .directory := by
  have hne : q ≠ p := fun h => hp (h ▸ hq)
  have hbeq : (q == p) = false := beq_false_of_ne hne
  unfold get? put at *
  by_cases habove : isAbove q
  · rw [if_pos habove]
  · rw [if_neg habove] at hq ⊢
    simp only [List.lookup_cons, hbeq]
    cases hentry : d.entries.lookup q with
    | some c => simpa [hentry] using hq
    | none =>
      simp only [hentry] at hq
      split at hq
      next hbelow => rw [List.any_cons, hbelow, Bool.or_true, if_pos rfl]
      next => cases hq

/-- Where one part of a path leads. -/
def turn (p : Place) : String → Except StorageFault Place
  | "" | "." => return p
  | ".." => return p.up
  | name => do
    checkName name
    return p ++ [name]

theorem turn_name {name : String} (hname : name ∉ ["", ".", ".."]) (hcheck : checkName name = .ok ())
    (p : Place) : turn p name = .ok (p ++ [name]) := by
  unfold turn
  split
  case h_4 => rw [hcheck]; rfl
  all_goals simp at hname

theorem walk_cons (d : Disk) (p : Place) (name : String) (names : List String) :
    d.walk p (name :: names) = d.enter p >>= fun _ => turn p name >>= (d.walk · names) := by
  unfold turn
  split <;> simp_all [walk]

theorem walk_append (d : Disk) (p : Place) (xs ys : List String) :
    d.walk p (xs ++ ys) = d.walk p xs >>= (d.walk · ys) := by
  induction xs generalizing p with
  | nil => rfl
  | cons x xs ih => simp only [List.cons_append, walk_cons, ih, bind_assoc]

/-- Every directory on the way is still there. -/
theorem walk_put {d : Disk} {p : Place} {bytes : ByteArray} (hp : d.get? p ≠ some .directory)
    {q r : Place} {names : List String} (h : d.walk q names = .ok r) :
    (d.put p (.file bytes)).walk q names = .ok r := by
  induction names generalizing q with
  | nil => exact h
  | cons name names ih =>
    rw [walk_cons] at h ⊢
    obtain ⟨_, henter, h⟩ := Except.of_bind_ok h
    obtain ⟨next, hturn, hwalk⟩ := Except.of_bind_ok h
    rw [enter_ok_iff.mpr (get?_put_of_directory hp (enter_ok_iff.mp henter)), hturn]
    exact ih hwalk

/-- A path under which a file can be made: a name in a directory. -/
structure Admits (d : Disk) (path : String) (place : Place) (name : String) : Prop where
  checkPath : Disk.checkPath path = .ok ()
  walk : ∃ names, (parts path).2 = names ++ [name] ∧ d.walk (parts path).1 names = .ok place
  directory : d.get? place = some .directory
  proper : name ∉ ["", ".", ".."]
  checkName : Disk.checkName name = .ok ()
  free : d.get? (place ++ [name]) ≠ some .directory

theorem of_write {d d' : Disk} {path text : String} (h : d.write path text = .ok d') :
    ∃ place name, d.Admits path place name ∧
      d' = d.put (place ++ [name]) (.file text.toUTF8) := by
  rcases hparts : parts path with ⟨start, names⟩
  unfold write at h
  obtain ⟨_, hpath, h⟩ := Except.of_bind_ok h
  simp only [hparts] at h
  obtain ⟨place, hwalk, h⟩ := Except.of_bind_ok h
  obtain ⟨_, henter, h⟩ := Except.of_bind_ok h
  split at h
  case h_4 name hdot hdots hlast =>
    -- a path that ends in a slash is refused, so the name is the last part
    by_cases hnamed : (names.reverse.dropWhile (· == "")).reverse = names
    · simp only [hnamed, bne_self_eq_false, Bool.false_eq_true, if_false] at h hwalk hlast
      obtain ⟨_, hname, h⟩ := Except.of_bind_ok h
      have hempty : name ≠ "" := by
        have hfirst := List.head?_dropWhile_not (· == "") names.reverse
        rw [List.reverse_eq_iff.mp hnamed, List.head?_reverse, hlast] at hfirst
        simpa using hfirst
      have hnames : names = names.dropLast ++ [name] :=
        (List.dropLast_append_getLast? name hlast).symm
      split at h
      · cases h
      next hfree =>
        cases h
        have hproper : name ∉ ["", ".", ".."] := by
          simpa using ⟨hempty, hdot, hdots⟩
        have hway : ∃ names, (parts path).2 = names ++ [name] ∧
            d.walk (parts path).1 names = .ok place := by
          rw [hparts]
          exact ⟨names.dropLast, hnames, hwalk⟩
        exact ⟨place, name, ⟨hpath, hway, enter_ok_iff.mp henter, hproper, hname, hfree⟩, rfl⟩
    · rw [if_pos (by simpa using hnamed)] at h
      cases h
  all_goals cases h

theorem read_of_get? {d : Disk} {path text : String} {p : Place} (hpath : d.resolve path = .ok p)
    (hp : d.get? p = some (.file text.toUTF8)) : d.read path = .ok text := by
  have htext : String.fromUTF8? text.toUTF8 = some text := dif_pos text.isValidUTF8
  simp only [read, readBytes, hpath, hp, htext, bind, Except.bind, pure, Except.pure]

/-- **A file that was written is read back.** -/
theorem read_write {d d' : Disk} {path text : String} (h : d.write path text = .ok d') :
    d'.read path = .ok text := by
  obtain ⟨place, name, hnames, rfl⟩ := of_write h
  obtain ⟨names, hparts, hwalk⟩ := hnames.walk
  have hdirectory : (d.put (place ++ [name]) (.file text.toUTF8)).enter place = .ok () :=
    enter_ok_iff.mpr (get?_put_of_directory hnames.free hnames.directory)
  have hresolve : (d.put (place ++ [name]) (.file text.toUTF8)).resolve path =
      .ok (place ++ [name]) := by
    simp only [resolve, hnames.checkPath, hparts, walk_append, walk_put hnames.free hwalk, walk_cons,
      hdirectory, turn_name hnames.proper hnames.checkName, bind, Except.bind]
    rfl
  have hat : (d.put (place ++ [name]) (.file text.toUTF8)).get? (place ++ [name]) =
      some (.file text.toUTF8) := by
    have habove : isAbove (place ++ [name]) = false := by
      have hname := hnames.proper
      simp_all [isAbove]
    simp [get?, put, habove]
  exact read_of_get? hresolve hat

end OutcomeControl.Command.Disk
