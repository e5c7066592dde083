import FileServer.Proof.Sequential.PageProgress

/-!
# The order of evictions

Which of the written files `fileDeleteFIFO` evicts, with the order in which they were written as a
history of the run.
-/

namespace FileServer
open Program

/-- The file that a completed `fileWrite` has written. -/
def Store.writtenBy (cfg : Config) (σ σ' : Store) : Request → List FileId
  | .fileWrite path _ _ _ => match σ.lookup cfg path with
      | .ok (some f) => if σ.holdsPages f = false ∧ σ'.holdsPages f = true then [f] else []
      | _ => []
  | _ => []

/-- Files in the order in which their `fileWrite` was completed. -/
abbrev WriteOrder (W : Type) (cfg : Config) : List FileId → Server W → Prop :=
  Traced W cfg (fun _ _ => True) (fun order σ σ' r => order ++ σ.writtenBy cfg σ' r) []

/-- `v` was written earliest among the files that hold pages and have another path. -/
structure Earliest (order : List FileId) (path : Option Path) (σ : Store) (v : FileId) : Prop where
  holds : σ.holdsPages v = true
  apart : ∀ file, σ.files v = some file → some file.abspath ≠ path
  first : ∀ g ∈ σ.recorded, σ.holdsPages g = true →
    (∀ file, σ.files g = some file → some file.abspath ≠ path) → order.idxOf v ≤ order.idxOf g

/-- `fileDeleteFIFO`, called in the state `t`, evicts the earliest file or none. -/
def EvictsEarliest {W : Type} (cfg : Config) (w : W) (order : List FileId) (str : CStr) (t : Server W) :
    Prop :=
  ∀ path v t', t.readStr str = .ok path →
    (server W cfg).run w (fileDeleteFIFO str) t = .ok (0, t') → v ∈ t.store.recorded →
    v ∉ t'.store.recorded → Earliest order path t.store v

/-- The recorded name highest on the stack, passing over the uppermost cell if it names `path`, is that of
the earliest file; or its record is locked by the caller. -/
def EarliestOnTop {W : Type} (cfg : Config) (order : List FileId) (str : CStr) (t : Server W) : Prop :=
  ∀ path i v, t.readStr str = .ok path → t.store.fstack.Comparable path →
    t.store.fstack.Uppermost (t.store.lookup cfg) path i v → t.owner (.file v) = none →
    Earliest order path t.store v

/-- What the history is: the recorded files that hold pages are in it, once, and no other recorded
file. -/
structure Ordered (order : List FileId) (σ : Store) : Prop where
  nodup : order.Nodup
  holding : ∀ g ∈ σ.recorded, σ.holdsPages g = true ↔ g ∈ order
  known : ∀ g ∈ order, g < σ.next

section
variable {W : Type} {cfg : Config} {w : W} {s s' t t' : Server W} {order : List FileId} {f v : FileId}
  {file : MemFile} {r : Request} {admits : Server W → Op → Prop}

/-! ## The history -/

theorem Store.writtenBy_of_same {σ σ' : Store} (same : ∀ f, σ'.holdsPages f = σ.holdsPages f) :
    σ.writtenBy cfg σ' r = [] := by
  unfold writtenBy
  split
  · split
    · rename_i f _
      rw [same f]
      exact if_neg fun both => by simp [both.1] at both
    · rfl
  · rfl

theorem Ordered.step (ordered : Ordered order s.store) (idle : Idle cfg s)
    (course : Course cfg admits s s' r) (next : s.store.next ≤ s'.store.next) :
    Ordered (order ++ s.store.writtenBy cfg s'.store r) s'.store := by
  have known (g : FileId) (mem : g ∈ order) : g < s'.store.next :=
    Nat.lt_of_lt_of_le (ordered.known g mem) next
  -- a request after which the files that hold pages are among those before
  have keep (none : s.store.writtenBy cfg s'.store r = [])
      (same : ∀ g ∈ s'.store.recorded, s'.store.holdsPages g = true ↔ g ∈ order) :
      Ordered (order ++ s.store.writtenBy cfg s'.store r) s'.store := by
    rw [none, List.append_nil]
    exact ⟨ordered.nodup, same, known⟩
  cases course with
  | settled settles =>
      have same (g : FileId) : s'.store.holdsPages g = s.store.holdsPages g :=
        Store.holdsPages_congr (settles.pagesN g)
      refine keep (Store.writtenBy_of_same same) fun g mem => ?_
      have mem' : g ∈ s.store.recorded := by
        unfold Store.recorded at mem ⊢
        rwa [settles.table] at mem
      rw [same]
      exact ordered.holding g mem'
  | @created path store =>
      refine keep rfl fun g mem => ?_
      rw [store] at mem ⊢
      rcases List.mem_cons.mp ((idle.consistent.recorded_create path).mem_iff.mp mem) with rfl | old
      · have new : (s.store.create cfg path).files s.store.next = some ⟨[], 0, path, 0, []⟩ :=
          Function.update_self ..
        refine iff_of_false ?_ fun listed => Nat.lt_irrefl _ (ordered.known _ listed)
        simp [Store.holdsPages, new]
      · have kept : (s.store.create cfg path).files g = s.store.files g :=
          Function.update_of_ne (idle.consistent.ne_next old) ..
        rw [Store.holdsPages_congr (congrArg _ kept)]
        exact ordered.holding g old
  | @deleted path pid v file t store removes freed =>
      have consistent : Consistent cfg none [] t.store := by
        rw [store]
        exact idle.consistent
      refine keep rfl fun g mem => ?_
      have old : g ∈ s.store.recorded := by
        rw [← store]
        exact (removes.recorded consistent).mem_iff.mpr (List.mem_cons_of_mem v mem)
      have kept : s'.store.files g = s.store.files g := by
        rw [← store]
        exact removes.files fun same => removes.victim_nmem consistent (same ▸ mem)
      rw [Store.holdsPages_congr (congrArg _ kept)]
      exact ordered.holding g old
  | @written path pid n data f file file' t u store searched target found empty others counted allocates
      recorded found' filled =>
      have before : s.store.holdsPages f = false := by simp [Store.holdsPages, found, empty]
      have after : s'.store.holdsPages f = true := (Store.holdsPages_of found').mpr filled
      have fresh : f ∉ order := fun listed => by
        simp [(ordered.holding f target).mpr listed] at before
      have target' : s.store.writtenBy cfg s'.store (.fileWrite path pid n data) = [f] := by
        simp [Store.writtenBy, searched, before, after]
      rw [target']
      refine ⟨ordered.nodup.append (List.nodup_singleton f) (by simpa using fresh), fun g mem => ?_,
        fun g mem => ?_⟩
      · by_cases here : g = f
        · subst here
          exact iff_of_true after (by simp)
        · have kept := (others g mem).2 here
          rw [Store.holdsPages_congr (congrArg _ kept.1), ordered.holding g (others g mem).1]
          simp [here]
      · rcases List.mem_append.mp mem with old | new
        · exact known g old
        · cases List.mem_singleton.mp new
          refine Nat.lt_of_lt_of_le (Nat.not_le.mp fun late => ?_) next
          cases found.symm.trans (idle.consistent.fresh f late)
  | @appended path pid n data f file file' t store target found hasPages others allocates recorded found'
      filled =>
      refine keep rfl fun g mem => ?_
      by_cases here : g = f
      · subst here
        refine iff_of_true ((Store.holdsPages_of found').mpr filled) ?_
        exact (ordered.holding g target).mp ((Store.holdsPages_of found).mpr hasPages)
      · have kept := (others g mem).2 here
        rw [Store.holdsPages_congr (congrArg _ kept.1)]
        exact ordered.holding g (others g mem).1

theorem ordered_of_traced (traced : WriteOrder W cfg order s) : Ordered order s.store := by
  induction traced with
  | initial =>
      refine ⟨List.nodup_nil, fun g mem => ?_, nofun⟩
      simp [Server.initial, memorySetup, Store.recorded] at mem
  | @request order s s' w fuel fd r before wellFormed met completed ih =>
      have idle := before.served.idle
      have passes : Passes (fun _ _ => True) cfg w s (handle cfg fuel fd r) _ s :=
        passes_handle fuel fd idle wellFormed
      exact ih.step idle (Machine.run_of_along passes (fun _ _ _ => trivial) completed)
        (run_next completed)

/-! ## Evictions -/

theorem evictsEarliest_iff {str : CStr} {path : Option Path} {busy : Option FileId} {extra : List Nat}
    (event : Event cfg w s (t.picking w) (.stackGetTop str)) (consistent : Consistent cfg busy extra t.store)
    (bounded : t.store.fstack.Bounded cfg) (read : t.readStr str = .ok path)
    (whole : ∀ name v file, t.store.lookup cfg name = .ok (some v) → t.owner (.file v) = none →
      t.store.files v = some file → file.pagesN ≤ file.pages.length)
    (free : ∀ m ∈ [Mutex.filestack, .hashTB, .pages], t.owner m = none) :
    EvictsEarliest cfg w order str t ↔ EarliestOnTop cfg order str t := by
  have inside : t.store.fstack.top ≤ t.store.fstack.stack.length := by
    rw [bounded.length]
    exact bounded.top
  have total : ∀ name, ∃ r, t.store.lookup cfg name = .ok r := Store.lookup_total fun f mem => by
    obtain ⟨file, found⟩ := consistent.alive mem
    rw [found]
    nofun
  constructor
  · intro evictsEarliest path' i v read' comparable uppermost vfree
    cases read.symm.trans read'
    have chosen := (FileStack.getTop_eq_ok total inside).mpr ⟨comparable, i, uppermost, rfl⟩
    obtain ⟨name, -, searched⟩ := uppermost.live
    have mem := Store.hashTbSearch_mem (Store.lookup_eq_ok.mp searched)
    obtain ⟨file, alive⟩ := consistent.alive mem
    obtain ⟨found, σ, removed⟩ := consistent.search_ok file.abspath .del
    have nonempty : t.store.fstack.top ≠ 0 := Nat.ne_of_gt (Nat.zero_lt_of_lt uppermost.below)
    have unlocked : ∀ m ∈ [Mutex.filestack, .hashTB, .pages, .file v], t.owner m = none := by
      intro m mem
      simp only [List.mem_cons, List.not_mem_nil, or_false] at mem free
      rcases mem with rfl | rfl | rfl | rfl
      · exact free _ (.inl rfl)
      · exact free _ (.inr (.inl rfl))
      · exact free _ (.inr (.inr rfl))
      · exact vfree
    obtain ⟨t', ran, -⟩ := run_fileDeleteFIFO (w := w) unlocked read nonempty chosen alive
      (whole name v file searched vfree alive) removed
    obtain ⟨path, v', file', read', evicts⟩ := evicts_of_run event whole ran
    cases read.symm.trans read'
    have same : v' = v := by
      have both := chosen.symm.trans evicts.chosen
      simp only [Outcome.ok.injEq, Prod.mk.injEq] at both
      exact both.1.symm
    subst same
    exact evictsEarliest _ v' t' read ran mem (evicts.victim_nmem consistent)
  · intro onTop path' v t' read' ran mem gone
    cases read.symm.trans read'
    obtain ⟨path, v', file', read', evicts⟩ := evicts_of_run event whole ran
    cases read.symm.trans read'
    cases evicts.victim_eq consistent mem gone
    obtain ⟨comparable, i, uppermost, -⟩ := (FileStack.getTop_eq_ok total inside).mp evicts.chosen
    exact onTop _ i v read comparable uppermost evicts.free

/-- The state in which `fileDeleteFIFO` was called, from the one in which it picks the file. -/
def Server.called (t : Server W) : Server W := (t.setOwner .hashTB none).setOwner .filestack none

theorem Server.called_picking (stackFree : t.owner .filestack = none) (hashFree : t.owner .hashTB = none) :
    (t.picking w).called = t := by
  cases t with
  | mk store owner sent =>
      simp only [Server.called, Server.picking, Server.setOwner, Server.mk.injEq, true_and, and_true]
      funext m
      by_cases stackMutex : m = .filestack
      · subst stackMutex
        simpa using stackFree.symm
      · by_cases hashMutex : m = .hashTB
        · subst hashMutex
          simpa using hashFree.symm
        · simp [stackMutex, hashMutex]

/-- Every eviction that a request comes to is of the earliest file exactly if that file is on top of the
stack. -/
theorem fifo_eviction (traced : WriteOrder W cfg order s) : Ordered order s.store ∧
    ∀ w fuel fd r str t, r.WellFormed →
      (server W cfg).Visits w (handle cfg fuel fd r) s (.stackGetTop str) t →
      (EvictsEarliest cfg w order str t.called ↔ EarliestOnTop cfg order str t.called) := by
  refine ⟨ordered_of_traced traced, fun w fuel fd r str t wellFormed visits => ?_⟩
  have idle := traced.served.idle
  obtain ⟨bounded, -⟩ : StackAsks cfg w t (.stackGetTop str) :=
    Machine.visits_of_along (bounds_handle fuel fd r traced.served.bounded) (fun _ _ _ => trivial) visits
  have event := event_of_visits idle wellFormed visits
  cases event with
  | @pick f t₀ midway exhausted =>
      have unlocked {m : Mutex} (other : m ≠ .file f) : t₀.owner m = none := midway.unlocked idle other
      rw [Server.called_picking (unlocked nofun) (unlocked nofun)]
      obtain ⟨busy, extra, only, consistent⟩ := midway.consistent
      obtain ⟨self, found⟩ := midway.alive
      have read : t₀.readStr (.abspath f) = .ok (some self.abspath) := Server.onFile_some _ found
      refine evictsEarliest_iff (.pick midway exhausted) consistent bounded read midway.whole
        fun m mem => unlocked ?_
      rintro rfl
      simp at mem
  | @count f t₀ midway settles full =>
      have unlocked {m : Mutex} (other : m ≠ .file f) (counter : m ≠ .fileN) :
          (t₀.setOwner .fileN (some w)).owner m = none :=
        (Server.setOwner_owner_of_ne _ _ counter).trans (midway.unlocked idle other)
      have whole (name : Path) (v : FileId) (file : MemFile)
          (named : t₀.store.lookup cfg name = .ok (some v))
          (free : (t₀.setOwner .fileN (some w)).owner (.file v) = none)
          (alive : t₀.store.files v = some file) : file.pagesN ≤ file.pages.length :=
        midway.whole name v file named (by simpa using free) alive
      rw [Server.called_picking (unlocked nofun nofun) (unlocked nofun nofun)]
      obtain ⟨busy, extra, only, consistent⟩ := midway.consistent
      refine evictsEarliest_iff (.count midway settles full) consistent bounded rfl whole fun m mem => ?_
      refine unlocked ?_ ?_
      · rintro rfl
        simp at mem
      · rintro rfl
        simp at mem
  | calm calm => cases calm

end

/-! ## The newest file goes first -/

def writeOrder (cfg : Config) (fuel : Nat) (rs : List Request) : List FileId :=
  history (fun order σ σ' r => order ++ σ.writtenBy cfg σ' r) cfg fuel 0 rs [] (Server.initial Unit cfg)

/-- An eviction takes the second file and leaves the first one, which is older and holds pages. -/
def leavesFirst (t : Server Unit) : Op → Bool
  | .stackGetTop .null => !((server Unit smallConfig).run () (fileDeleteFIFO .null) t.called).okAnd
      fun (code, t') => code = 0 && 0 ∈ t.called.store.recorded && t.called.store.holdsPages 0 &&
        1 ∈ t.called.store.recorded && !(1 ∈ t'.store.recorded)
  | _ => true

/-- A third file is written where two are allowed: the second goes, and the first was written before
it. -/
theorem newest_evicted :
    WriteOrder Unit smallConfig (writeOrder smallConfig 5 thirdFile) (reached smallConfig 5 thirdFile) ∧
      ∃ t, (server Unit smallConfig).Visits () (handle smallConfig 5 0 (.fileWrite [99] 7 4 [9, 9, 9, 9]))
          (reached smallConfig 5 thirdFile) (.stackGetTop .null) t ∧
        ¬EvictsEarliest smallConfig () (writeOrder smallConfig 5 thirdFile) .null t.called := by
  refine ⟨traced_reached (fun _ _ => true) (fun _ _ _ => trivial)
    (by simp [thirdFile, twoFiles, deletedFile, Request.WellFormed]) (by decide +kernel), ?_⟩
  have order : writeOrder smallConfig 5 thirdFile = [0, 1] := by decide +kernel
  have evicts : (server Unit smallConfig).checks leavesFirst ()
      (handle smallConfig 5 0 (.fileWrite [99] 7 4 [9, 9, 9, 9])) (reached smallConfig 5 thirdFile) =
        false := by decide +kernel
  obtain ⟨o, t, visits, failed⟩ := Machine.visits_of_checks evicts
  cases o with
  | stackGetTop str =>
      cases str with
      | null =>
          simp only [leavesFirst, Bool.not_eq_false'] at failed
          obtain ⟨⟨code, t'⟩, ran, checked⟩ := Outcome.okAnd_iff.mp failed
          simp only [Bool.and_eq_true, decide_eq_true_eq, Bool.not_eq_true', decide_eq_false_iff_not] at checked
          obtain ⟨⟨⟨⟨rfl, first⟩, holds⟩, second⟩, gone⟩ := checked
          refine ⟨t, visits, fun earliest => ?_⟩
          have early := (earliest none 1 t' rfl ran second gone).first 0 first holds (by simp)
          rw [order] at early
          exact absurd early (by decide)
      | _ => cases failed
  | _ => cases failed

theorem fifo_eviction_example :
    Ordered (writeOrder smallConfig 5 thirdFile) (reached smallConfig 5 thirdFile).store ∧
    ∀ w fuel fd r str t, r.WellFormed →
      (server Unit smallConfig).Visits w (handle smallConfig fuel fd r) (reached smallConfig 5 thirdFile)
        (.stackGetTop str) t →
      (EvictsEarliest smallConfig w (writeOrder smallConfig 5 thirdFile) str t.called ↔
        EarliestOnTop smallConfig (writeOrder smallConfig 5 thirdFile) str t.called) :=
  fifo_eviction (traced_reached (fun _ _ => true) (fun _ _ _ => trivial)
    (by simp [thirdFile, twoFiles, deletedFile, Request.WellFormed]) (by decide +kernel))

end FileServer
