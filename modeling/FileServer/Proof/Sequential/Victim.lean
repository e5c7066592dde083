import FileServer.Proof.Sequential.Requests

/-!
# The choice of `fileStackGetTop`

Which record the scan finds, on any stack, and when that is a file the caller may evict.
-/

namespace FileServer
open Program

/-- Cell `i` holds the name of a recorded file. -/
def FileStack.Live (search : Path → Outcome Fault (Option FileId)) (stack : List (Option Path))
    (i : Nat) (f : FileId) : Prop :=
  ∃ name, stack[i]? = some (some name) ∧ search name = .ok (some f)

/-- `foundSelf != -1`: the uppermost cell holds the name passed in. -/
def FileStack.foundSelf (s : FileStack) : Option Path → Bool
  | none => false
  | some path => match s.stack[s.top - 1]? with
      | some (some name) => strncmpEq name path
      | _ => false

/-- The uppermost cell can be compared with the name passed in. -/
def FileStack.Comparable (s : FileStack) (path : Option Path) : Prop :=
  path ≠ none → ∃ name, s.stack[s.top - 1]? = some (some name)

/-- Cell `i` names the record `f`, and above it only the uppermost cell, if that is passed over, names
a recorded file. -/
structure FileStack.Uppermost (search : Path → Outcome Fault (Option FileId)) (s : FileStack)
    (path : Option Path) (i : Nat) (f : FileId) : Prop where
  below : i < s.top
  live : Live search s.stack i f
  apart : i + 1 = s.top → s.foundSelf path = false
  highest : ∀ j g, i < j → j < s.top → Live search s.stack j g →
    j + 1 = s.top ∧ s.foundSelf path = true

namespace FileStack
variable {search : Path → Outcome Fault (Option FileId)} {stack : List (Option Path)}
  {s s' : FileStack} {path : Option Path} {n i : Nat} {f : FileId}

/-! ## The scan -/

theorem scanDown_below (scanned : scanDown search stack n = .ok (i, f)) :
    ∀ j g, i < j → j < n → ¬Live search stack j g := by
  induction n with
  | zero => cases scanned
  | succ n ih =>
      intro j g above inside live
      have last (dead : ∀ g, ¬Live search stack n g)
          (rest : scanDown search stack n = .ok (i, f)) : False := by
        rcases Nat.lt_succ_iff_lt_or_eq.mp inside with lower | rfl
        · exact ih rest j g above lower live
        · exact dead g live
      simp only [scanDown] at scanned
      split at scanned
      · cases scanned
      · rename_i hole
        refine last ?_ scanned
        rintro g ⟨name, cell, -⟩
        cases hole.symm.trans cell
      · rename_i name cell
        obtain ⟨result, searched, rest⟩ := Outcome.andThen_eq_ok.mp scanned
        cases result with
        | none =>
            refine last ?_ rest
            rintro g ⟨name', cell', searched'⟩
            cases cell.symm.trans cell'
            cases searched.symm.trans searched'
        | some g' =>
            cases rest
            exact Nat.lt_irrefl _ (Nat.lt_of_lt_of_le above (Nat.lt_succ_iff.mp inside))

theorem scanDown_reaches (total : ∀ name, ∃ r, search name = .ok r) (inside : n ≤ stack.length)
    (below : i < n) (live : Live search stack i f)
    (highest : ∀ j g, i < j → j < n → ¬Live search stack j g) :
    scanDown search stack n = .ok (i, f) := by
  induction n with
  | zero => cases below
  | succ n ih =>
      have onward (other : i ≠ n) : scanDown search stack n = .ok (i, f) :=
        ih (Nat.le_of_succ_le inside)
          (Nat.lt_of_le_of_ne (Nat.lt_succ_iff.mp below) other)
          fun j g above lower => highest j g above (Nat.lt_succ_of_lt lower)
      have dead (other : i ≠ n) (g : FileId) : ¬Live search stack n g :=
        highest n g (Nat.lt_of_le_of_ne (Nat.lt_succ_iff.mp below) other) (Nat.lt_succ_self n)
      simp only [scanDown]
      cases cell : stack[n]? with
      | none => exact absurd inside (Nat.not_le.mpr (Nat.lt_succ_of_le (List.getElem?_eq_none_iff.mp cell)))
      | some entry =>
          cases entry with
          | none =>
              refine onward ?_
              rintro rfl
              obtain ⟨name, cell', -⟩ := live
              cases cell.symm.trans cell'
          | some name =>
              obtain ⟨result, searched⟩ := total name
              simp only [searched, Outcome.andThen_ok]
              by_cases here : i = n
              · subst here
                obtain ⟨name', cell', searched'⟩ := live
                cases cell.symm.trans cell'
                cases searched.symm.trans searched'
                rfl
              · cases result with
                | none => exact onward here
                | some g => exact absurd ⟨name, cell, searched⟩ (dead here g)

theorem scanDown_eq_ok (total : ∀ name, ∃ r, search name = .ok r) (inside : n ≤ stack.length) :
    scanDown search stack n = .ok (i, f) ↔
      i < n ∧ Live search stack i f ∧ ∀ j g, i < j → j < n → ¬Live search stack j g := by
  constructor
  · intro scanned
    obtain ⟨below, live⟩ := scanDown_found scanned
    exact ⟨below, live, scanDown_below scanned⟩
  · rintro ⟨below, live, highest⟩
    exact scanDown_reaches total inside below live highest

def scanned (s : FileStack) (path : Option Path) : Nat := if s.foundSelf path then s.top - 1 else s.top

def taken (s : FileStack) (path : Option Path) (i : Nat) : FileStack :=
  { s with top := if s.foundSelf path then s.top else i, stack := s.stack.set i none }

theorem uppermost_iff (total : ∀ name, ∃ r, search name = .ok r) (bounded : s.top ≤ s.stack.length) :
    s.Uppermost search path i f ↔ scanDown search s.stack (s.scanned path) = .ok (i, f) := by
  have inside : s.scanned path ≤ s.stack.length := by
    unfold scanned
    split <;> omega
  rw [scanDown_eq_ok total inside]
  unfold scanned
  constructor
  · intro uppermost
    have below := uppermost.below
    refine ⟨?_, uppermost.live, fun j g above lower live => ?_⟩
    · split
      · rename_i self
        have apart : i + 1 ≠ s.top := fun last => by simp [uppermost.apart last] at self
        omega
      · exact below
    · have last := uppermost.highest j g above (by split at lower <;> omega) live
      rw [if_pos last.2] at lower
      omega
  · rintro ⟨below, live, highest⟩
    refine ⟨by split at below <;> omega, live, fun last => ?_, fun j g above lower alive => ?_⟩
    · by_contra self
      rw [if_pos (by simpa using self)] at below
      omega
    · by_cases self : s.foundSelf path = true
      · rw [if_pos self] at highest
        refine ⟨?_, self⟩
        by_contra other
        exact highest j g above (by omega) alive
      · rw [if_neg self] at highest
        exact absurd alive (highest j g above lower)

theorem getTop_eq_scan : s.getTop search path = .ok (f, s') ↔
    s.Comparable path ∧ ∃ i, scanDown search s.stack (s.scanned path) = .ok (i, f) ∧
      s' = s.taken path i := by
  have scan (n : Nat) (upd : Nat → FileStack) :
      (scanDown search s.stack n).andThen (fun p => .ok (p.2, upd p.1)) = .ok (f, s') ↔
        ∃ i, scanDown search s.stack n = .ok (i, f) ∧ s' = upd i := by
    rw [Outcome.andThen_eq_ok]
    constructor
    · rintro ⟨⟨i, g⟩, down, rest⟩
      cases rest
      exact ⟨i, down, rfl⟩
    · rintro ⟨i, down, rfl⟩
      exact ⟨(i, f), down, rfl⟩
  cases path with
  | none =>
      have always : s.Comparable none := fun wrong => absurd rfl wrong
      rw [and_iff_right always]
      exact scan s.top fun i => { s with top := i, stack := s.stack.set i none }
  | some path =>
      cases cell : s.stack[s.top - 1]? with
      | none =>
          refine iff_of_false (by simp [getTop, cell]) fun scans => ?_
          obtain ⟨name, here⟩ := scans.1 (Option.some_ne_none path)
          cases cell.symm.trans here
      | some entry =>
          cases entry with
          | none =>
              refine iff_of_false (by simp [getTop, cell]) fun scans => ?_
              obtain ⟨name, here⟩ := scans.1 (Option.some_ne_none path)
              cases cell.symm.trans here
          | some name =>
              have always : s.Comparable (some path) := fun _ => ⟨name, cell⟩
              rw [and_iff_right always]
              by_cases self : strncmpEq name path = true
              · have found : s.foundSelf (some path) = true := by simp [foundSelf, cell, self]
                simp only [getTop, cell, scanned, taken, if_pos self, if_pos found]
                exact scan (s.top - 1) fun i => { s with stack := s.stack.set i none }
              · have other : ¬s.foundSelf (some path) = true := by simp [foundSelf, cell, self]
                simp only [getTop, cell, scanned, taken, if_neg self, if_neg other]
                exact scan s.top fun i => { s with top := i, stack := s.stack.set i none }

theorem getTop_eq_ok (total : ∀ name, ∃ r, search name = .ok r) (bounded : s.top ≤ s.stack.length) :
    s.getTop search path = .ok (f, s') ↔
      s.Comparable path ∧ ∃ i, s.Uppermost search path i f ∧ s' = s.taken path i := by
  simp only [getTop_eq_scan, uppermost_iff total bounded]

end FileStack

/-! ## `fileStackGetTop` -/

/-- Cell `i` below the top holds `name`, and `f` is recorded under that name. -/
def Store.Lists (cfg : Config) (σ : Store) (i : Nat) (name : Path) (f : FileId) : Prop :=
  i < σ.fstack.top ∧ σ.fstack.stack[i]? = some (some name) ∧ σ.lookup cfg name = .ok (some f)

def Differs (path : Option Path) (name : Path) : Prop := ∀ p, path = some p → strncmpEq name p = false

/-- What `fileStackGetTop` is for: it returns `NULL` if and only if no cell below the top names a
recorded file other than `path`, and else such a file; the other recorded names stay below the top. -/
structure SelectsVictim (cfg : Config) (path : Option Path) (σ : Store) (found : Option FileId)
    (σ' : Store) : Prop where
  null : found = none ↔ ∀ i name f, σ.Lists cfg i name f → ¬Differs path name
  victim : ∀ f, found = some f → ∃ i name, σ.Lists cfg i name f ∧ Differs path name
  others : ∀ i name f, σ.Lists cfg i name f → found ≠ some f →
    i < σ'.fstack.top ∧ σ'.fstack.stack[i]? = some (some name)

section
variable {W : Type} {cfg : Config} {w : W} {s : Server W} {str : CStr} {path : Option Path}

theorem Store.lookup_total {σ : Store} (alive : ∀ f ∈ σ.recorded, σ.files f ≠ none) (name : Path) :
    ∃ r, σ.lookup cfg name = .ok r := by
  have here : ∀ entry ∈ σ.table.getD (Store.hashTbPos cfg name) [], σ.files entry.data ≠ none :=
    fun entry mem => alive entry.data (Store.mem_recorded.mpr ⟨_, entry, mem, rfl⟩)
  obtain ⟨result, searched⟩ := searchBucket_ok here (hashKey name) name
  unfold Store.lookup
  dsimp only [Store.hashTbSearch]
  rw [searched]
  cases result with
  | none => exact ⟨none, rfl⟩
  | some pair => exact ⟨some pair.1, rfl⟩

theorem Store.lookup_names {σ : Store} {name name' : Path} {f : FileId}
    (first : σ.lookup cfg name = .ok (some f)) (second : σ.lookup cfg name' = .ok (some f))
    (t : Path) : strncmpEq name t = strncmpEq name' t := by
  obtain ⟨file, alive, same⟩ := Store.hashTbSearch_alive (Store.lookup_eq_ok.mp first)
  obtain ⟨file', alive', same'⟩ := Store.hashTbSearch_alive (Store.lookup_eq_ok.mp second)
  cases alive.symm.trans alive'
  have prefixes := (strncmpEq_iff.mp same).trans (strncmpEq_iff.mp same').symm
  simp [strncmpEq, prefixes]

theorem exec_stackGetTop (cfg : Config) (w : W) (read : s.readStr str = .ok path) :
    Server.exec cfg w (.stackGetTop str) s =
      (s.store.fstack.getTop (s.store.lookup cfg) path).andThen fun (f, stack) => .ok (f, s.setStack stack) := by
  simp only [Server.exec, read, Outcome.andThen_ok]
  rfl

theorem run_fileStackGetTop_nonempty (free : s.owner .hashTB = none) (nonempty : s.store.fstack.top ≠ 0) :
    (server W cfg).run w (fileStackGetTop str) s =
      ((s.readStr str).andThen (s.store.fstack.getTop (s.store.lookup cfg))).andThen fun (f, stack) =>
        .ok (some f, s.setStack stack) := by
  have top : (server W cfg).run w (call (.stackTop str)) s = .ok (s.store.fstack.top, s) :=
    run_call _
  have step : Server.exec cfg w (.stackGetTop str) (s.setOwner .hashTB (some w)) =
      ((s.readStr str).andThen (s.store.fstack.getTop (s.store.lookup cfg))).andThen fun chosen =>
        .ok (chosen.1, (s.setOwner .hashTB (some w)).setStack chosen.2) := by
    simp only [Server.exec, readStr_setOwner, Server.setOwner_store]
    exact (Outcome.andThen_assoc ..).symm
  unfold fileStackGetTop
  rw [Machine.run_bind_of top, if_neg nonempty,
    Machine.run_bind_of (run_lock (m := .hashTB) trivial free), Machine.run_bind, run_call, step,
    Outcome.andThen_assoc]
  congr 1
  funext chosen
  have release : ((s.setOwner .hashTB (some w)).setStack chosen.2).setOwner .hashTB none =
      s.setStack chosen.2 := Server.setOwner_release (s.setStack chosen.2) w free
  dsimp only [Outcome.andThen_ok]
  rw [Machine.run_bind_of (run_unlock (m := .hashTB) trivial), release]
  rfl

theorem run_fileStackGetTop (free : s.owner .hashTB = none) (read : s.readStr str = .ok path)
    (nonempty : s.store.fstack.top ≠ 0) :
    (server W cfg).run w (fileStackGetTop str) s =
      (s.store.fstack.getTop (s.store.lookup cfg) path).andThen fun (f, stack) =>
        .ok (some f, s.setStack stack) := by
  rw [run_fileStackGetTop_nonempty free nonempty, read, Outcome.andThen_ok]

theorem FileStack.foundSelf_iff {t : FileStack} : t.foundSelf path = true ↔
    ∃ name, t.stack[t.top - 1]? = some (some name) ∧ ¬Differs path name := by
  cases path with
  | none => simp [FileStack.foundSelf, Differs]
  | some path =>
      cases cell : t.stack[t.top - 1]? with
      | none => simp [FileStack.foundSelf, cell]
      | some entry => cases entry <;> simp [FileStack.foundSelf, cell, Differs]

theorem Store.Lists.live {σ : Store} {i : Nat} {name : Path} {f : FileId}
    (lists : σ.Lists cfg i name f) : FileStack.Live (σ.lookup cfg) σ.fstack.stack i f :=
  ⟨name, lists.2⟩

/-- The choice is right exactly when the stack is empty, or the uppermost cell can be compared and the
first recorded name below it, or in it if it is not `path`, is not `path`. -/
theorem selects_victim_iff (alive : ∀ f ∈ s.store.recorded, s.store.files f ≠ none)
    (bounded : s.store.fstack.top ≤ s.store.fstack.stack.length) (free : s.owner .hashTB = none)
    (read : s.readStr str = .ok path) :
    (∃ found s', (server W cfg).run w (fileStackGetTop str) s = .ok (found, s') ∧
      SelectsVictim cfg path s.store found s'.store) ↔
    s.store.fstack.top = 0 ∨ s.store.fstack.Comparable path ∧
      ∃ i name f, s.store.Lists cfg i name f ∧ Differs path name ∧
        ∀ j name' g, i < j → s.store.Lists cfg j name' g →
          j + 1 = s.store.fstack.top ∧ ¬Differs path name' := by
  have total : ∀ name, ∃ r, s.store.lookup cfg name = .ok r := Store.lookup_total alive
  by_cases empty : s.store.fstack.top = 0
  · refine iff_of_true ⟨none, s, ?_, ?_⟩ (.inl empty)
    · have top : (server W cfg).run w (call (.stackTop str)) s = .ok (s.store.fstack.top, s) :=
        run_call _
      unfold fileStackGetTop
      rw [Machine.run_bind_of top, if_pos empty]
      rfl
    · have nothing : ∀ i name f, ¬s.store.Lists cfg i name f := by
        rintro i name f ⟨below, -⟩
        rw [empty] at below
        exact Nat.not_lt_zero i below
      exact ⟨iff_of_true rfl fun i name f lists => absurd lists (nothing i name f), nofun,
        fun i name f lists => absurd lists (nothing i name f)⟩
  · rw [or_iff_right empty, run_fileStackGetTop free read empty]
    constructor
    · rintro ⟨found, s', ended, selects⟩
      obtain ⟨⟨v, stack⟩, chosen, result⟩ := Outcome.andThen_eq_ok.mp ended
      cases result
      obtain ⟨comparable, i, uppermost, -⟩ := (FileStack.getTop_eq_ok total bounded).mp chosen
      obtain ⟨name, cell, searched⟩ := uppermost.live
      -- whichever cell shows that the victim is another file, it has the name of this one
      obtain ⟨_, name', ⟨-, -, searched'⟩, differs⟩ := selects.victim v rfl
      refine ⟨comparable, i, name, v, ⟨uppermost.below, cell, searched⟩, fun p same => ?_, ?_⟩
      · rw [Store.lookup_names searched searched' p]
        exact differs p same
      · intro j name'' g above lists
        obtain ⟨last, self⟩ := uppermost.highest j g above lists.1 lists.live
        obtain ⟨named, cell', same⟩ := FileStack.foundSelf_iff.mp self
        rw [← last, Nat.add_sub_cancel] at cell'
        cases cell'.symm.trans lists.2.1
        exact ⟨last, same⟩
    · rintro ⟨comparable, i, name, v, lists, differs, highest⟩
      have uppermost : s.store.fstack.Uppermost (s.store.lookup cfg) path i v := by
        refine ⟨lists.1, lists.live, fun last => ?_, fun j g above inside live => ?_⟩
        · by_contra self
          obtain ⟨named, cell, same⟩ := FileStack.foundSelf_iff.mp (by simpa using self)
          rw [← last, Nat.add_sub_cancel] at cell
          cases cell.symm.trans lists.2.1
          exact same differs
        · obtain ⟨named, cell, searched⟩ := live
          obtain ⟨last, same⟩ := highest j named g above ⟨inside, cell, searched⟩
          refine ⟨last, FileStack.foundSelf_iff.mpr ⟨named, ?_, same⟩⟩
          rw [← last, Nat.add_sub_cancel]
          exact cell
      have chosen := (FileStack.getTop_eq_ok total bounded).mpr ⟨comparable, i, uppermost, rfl⟩
      refine ⟨some v, s.setStack (s.store.fstack.taken path i), by rw [chosen]; rfl, ?_, ?_, ?_⟩
      · exact iff_of_false nofun fun none => none i name v lists differs
      · rintro _ ⟨⟩
        exact ⟨i, name, lists, differs⟩
      · intro j name' g lists' other
        have apart : j ≠ i := by
          rintro rfl
          cases lists.2.1.symm.trans lists'.2.1
          cases lists.2.2.symm.trans lists'.2.2
          exact other rfl
        refine ⟨?_, (List.getElem?_set_ne (Ne.symm apart)).trans lists'.2.1⟩
        show j < if _ then _ else i
        split
        · exact lists'.1
        · rename_i self
          by_contra above
          obtain ⟨last, same⟩ := highest j name' g (by omega) lists'
          refine self (FileStack.foundSelf_iff.mpr ⟨name', ?_, same⟩)
          rw [← last, Nat.add_sub_cancel]
          exact lists'.2.1

end

/-! ## The two ways to choose wrongly -/

def deletedFile : List Request :=
  [.fileInit [97], .fileOpen [97] 7, .fileWrite [97] 7 4 [1, 2, 3, 4], .fileDelete [97] 7]

def rewrittenFile : List Request := deletedFile ++ deletedFile.take 3

/-- After a file has been deleted the scan leaves the stack, and for a file that has been deleted and
written again it finds that very file. -/
theorem misselects_victim :
    (Served Unit smallConfig (fun _ _ => True) (reached smallConfig 5 deletedFile) ∧
      ¬∃ found s', (server Unit smallConfig).run () (fileStackGetTop .null)
          (reached smallConfig 5 deletedFile) = .ok (found, s') ∧
        SelectsVictim smallConfig none (reached smallConfig 5 deletedFile).store found s'.store) ∧
    Served Unit smallConfig (fun _ _ => True) (reached smallConfig 5 rewrittenFile) ∧
      ¬∃ found s', (server Unit smallConfig).run () (fileStackGetTop (.buf [97]))
          (reached smallConfig 5 rewrittenFile) = .ok (found, s') ∧
        SelectsVictim smallConfig (some [97]) (reached smallConfig 5 rewrittenFile).store found
          s'.store := by
  refine ⟨⟨served_reached (by simp [deletedFile, Request.WellFormed]) (fun _ _ _ => trivial)
    (by decide +kernel), ?_⟩, served_reached (by simp [rewrittenFile, deletedFile, Request.WellFormed])
    (fun _ _ _ => trivial) (by decide +kernel), ?_⟩
  · rintro ⟨found, s', ended, -⟩
    have failed : ((server Unit smallConfig).run () (fileStackGetTop .null)
        (reached smallConfig 5 deletedFile)).isFault .stackIndex = true := by decide +kernel
    rw [ended] at failed
    cases failed
  · rintro ⟨found, s', ended, selects⟩
    have chosen : ((server Unit smallConfig).run () (fileStackGetTop (.buf [97]))
        (reached smallConfig 5 rewrittenFile)).okAnd (fun (found, _) => found = some 1) = true := by
      decide +kernel
    rw [ended] at chosen
    obtain ⟨i, name, ⟨-, cell, -⟩, differs⟩ := selects.victim 1 (by simpa [Outcome.okAnd] using chosen)
    have stack : (reached smallConfig 5 rewrittenFile).store.fstack.stack =
        [some [97], some [97], none] := by decide +kernel
    have names : some name = some [97] ∨ some name = none := by
      have mem := List.mem_of_getElem? cell
      rw [stack] at mem
      simpa using mem
    simp only [Option.some.injEq, reduceCtorEq, or_false] at names
    rw [names] at differs
    cases differs [97] rfl

def twoFiles : List Request :=
  deletedFile.take 3 ++ [.fileInit [98], .fileOpen [98] 7, .fileWrite [98] 7 4 [5, 6, 7, 8]]

def thirdFile : List Request := twoFiles ++ [.fileInit [99], .fileOpen [99] 7]

theorem selects_victim_example : ∃ found s', (server Unit smallConfig).run ()
      (fileStackGetTop (.buf [98])) (reached smallConfig 5 twoFiles) = .ok (found, s') ∧
    SelectsVictim smallConfig (some [98]) (reached smallConfig 5 twoFiles).store found s'.store := by
  have served : Served Unit smallConfig (fun _ _ => True) (reached smallConfig 5 twoFiles) :=
    served_reached (by simp [twoFiles, deletedFile, Request.WellFormed]) (fun _ _ _ => trivial)
      (by decide +kernel)
  have stack : (reached smallConfig 5 twoFiles).store.fstack =
      ⟨3, 2, [some [97], some [98], none]⟩ := by decide +kernel
  refine (selects_victim_iff (fun f mem => ?_) (by rw [stack]; decide) (served.idle.unlocked _)
    rfl).mpr (.inr ⟨fun _ => ⟨[98], by rw [stack]; rfl⟩, 0, [97], 0, ⟨by rw [stack]; decide,
      by rw [stack]; rfl, by decide +kernel⟩, ?_, fun j name g above lists => ?_⟩)
  · obtain ⟨file, found⟩ := served.idle.consistent.alive mem
    rw [found]
    nofun
  · rintro _ ⟨⟩
    rfl
  · obtain ⟨inside, cell, -⟩ := lists
    rw [stack] at inside cell ⊢
    have last : j = 1 := by
      have below : j < 2 := inside
      omega
    subst last
    cases cell
    exact ⟨rfl, fun differs => by cases differs [98] rfl⟩

end FileServer
