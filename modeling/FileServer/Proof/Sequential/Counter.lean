import FileServer.Proof.Sequential.Course
import FileServer.Proof.Sequential.Victim

/-!
# The counter of files

`file_n` against the number of recorded files that hold pages.
-/

namespace FileServer
open Program

def Store.holdsPages (σ : Store) (f : FileId) : Bool := (σ.files f).any fun file => file.pagesN ≠ 0

/-- The number of files in the hash table that hold pages. -/
def Store.filesHeld (σ : Store) : Nat := σ.recorded.countP σ.holdsPages

def Store.filesHeldBut (σ : Store) (f : FileId) : Nat :=
  σ.recorded.countP fun g => g ≠ f && σ.holdsPages g

def Request.deletes : Request → Bool
  | .fileDelete _ _ => true
  | _ => false

/-- A file that is evicted holds pages, a file that is deleted holds none, and `FileNUpdate` finds
something on the stack at the limit. -/
def CountsExactly {W : Type} (r : Request) (t : Server W) : Op → Prop
  | .free v => ∀ file, t.store.files v = some file →
      (file.pagesN = 0 ↔ r.deletes = true)
  | .stackTop _ => t.owner .fileN ≠ none → t.store.fstack.top ≠ 0
  | _ => True

/-- The states between requests served one after the other, each of which only performed operations
that `admits` allows. -/
inductive ServedBy (W : Type) (cfg : Config) (admits : Request → Server W → Op → Prop) :
    Server W → Prop where
  | initial : ServedBy W cfg admits (Server.initial W cfg)
  | request {s s' w fuel fd r} (before : ServedBy W cfg admits s) (wellFormed : r.WellFormed)
      (completed : (server W cfg).run w (handle cfg fuel fd r) s = .ok ((), s'))
      (admitted : ∀ o t, (server W cfg).Visits w (handle cfg fuel fd r) s o t → admits r t o) :
      ServedBy W cfg admits s'

section
variable {W : Type} {cfg : Config} {w : W} {admits : Server W → Op → Prop} {s t t' : Server W}
  {σ σ' : Store} {f v : FileId} {file : MemFile} {r : Request}

/-! ## Counting -/

theorem Store.holdsPages_of (found : σ.files f = some file) :
    σ.holdsPages f = true ↔ file.pagesN ≠ 0 := by
  simp [holdsPages, found]

theorem Store.holdsPages_congr (same : (σ'.files f).map MemFile.pagesN = (σ.files f).map MemFile.pagesN) :
    σ'.holdsPages f = σ.holdsPages f := by
  have any (σ : Store) : σ.holdsPages f = ((σ.files f).map MemFile.pagesN).any (· ≠ 0) := by
    unfold holdsPages
    cases σ.files f <;> rfl
  rw [any, any, same]

theorem Store.filesHeld_of_perm (perm : σ.recorded.Perm (v :: σ'.recorded))
    (same : ∀ g ∈ σ'.recorded, σ.files g = σ'.files g) :
    σ.filesHeld = σ'.filesHeld + if σ.holdsPages v then 1 else 0 := by
  unfold filesHeld
  rw [perm.countP_eq, List.countP_cons]
  congr 1
  refine List.countP_congr fun g mem => ?_
  have kept : σ.holdsPages g = σ'.holdsPages g := holdsPages_congr (by rw [same g mem])
  rw [kept]

theorem Store.filesHeldBut_of_perm (perm : σ.recorded.Perm (v :: σ'.recorded)) (other : v ≠ f)
    (same : ∀ g ∈ σ'.recorded, σ.files g = σ'.files g) :
    σ.filesHeldBut f = σ'.filesHeldBut f + if σ.holdsPages v then 1 else 0 := by
  unfold filesHeldBut
  rw [perm.countP_eq, List.countP_cons]
  simp only [other, ne_eq, not_false_eq_true, decide_true, Bool.true_and]
  congr 1
  refine List.countP_congr fun g mem => ?_
  have kept : σ.holdsPages g = σ'.holdsPages g := holdsPages_congr (by rw [same g mem])
  rw [kept]

theorem Store.filesHeld_split (mem : f ∈ σ.recorded) (nodup : σ.recorded.Nodup) :
    σ.filesHeld = σ.filesHeldBut f + if σ.holdsPages f then 1 else 0 := by
  have split := List.perm_cons_erase mem
  unfold filesHeld filesHeldBut
  rw [split.countP_eq, List.countP_cons, split.countP_eq, List.countP_cons]
  simp only [ne_eq, not_true_eq_false, decide_false, Bool.false_and, Bool.false_eq_true, if_false,
    Nat.add_zero]
  congr 1
  refine List.countP_congr fun g isIn => ?_
  simp [(nodup.mem_erase_iff.mp isIn).1]

theorem Settles.filesHeld (settles : Settles σ σ') : σ'.filesHeld = σ.filesHeld := by
  unfold Store.filesHeld Store.recorded
  rw [settles.table]
  exact List.countP_congr fun g _ => by rw [Store.holdsPages_congr (settles.pagesN g)]

theorem Settles.filesHeldBut (settles : Settles σ σ') : σ'.filesHeldBut f = σ.filesHeldBut f := by
  unfold Store.filesHeldBut Store.recorded
  rw [settles.table]
  exact List.countP_congr fun g _ => by rw [Store.holdsPages_congr (settles.pagesN g)]

theorem filesHeldBut_setFile (file : Option MemFile) :
    (t.setFile f file).store.filesHeldBut f = t.store.filesHeldBut f := by
  refine List.countP_congr fun g _ => ?_
  by_cases same : g = f
  · simp [same]
  · rw [Store.holdsPages_congr (congrArg _ (Function.update_of_ne same ..))]

theorem Removes.files (removes : Removes cfg t t' v file) {g : FileId} (other : g ≠ v) :
    t'.store.files g = t.store.files g := by
  rw [removes.result]
  exact Function.update_of_ne other ..

theorem Removes.fileN (removes : Removes cfg t t' v file) : t'.store.fileN = t.store.fileN := by
  rw [removes.result]
  rfl

theorem Leaves.filesHeldBut (leaves : Leaves f v t.store t'.store) (removes : Removes cfg t t' v file)
    (hasPages : file.pagesN ≠ 0) : t.store.filesHeldBut f = t'.store.filesHeldBut f + 1 := by
  rw [Store.filesHeldBut_of_perm leaves.perm leaves.other fun g mem => ?_,
    if_pos ((Store.holdsPages_of removes.alive).mpr hasPages)]
  refine (removes.files ?_).symm
  rintro rfl
  exact leaves.gone mem

/-! ## Balance -/

def EvictsFilled (admits : Server W → Op → Prop) : Prop :=
  ∀ u v file, admits u (.free v) → u.store.files v = some file → file.pagesN ≠ 0

theorem Freed.filled (freed : Freed admits t v) (evicts : EvictsFilled admits)
    (alive : t.store.files v = some file) : file.pagesN ≠ 0 := by
  obtain ⟨u, files, admitted⟩ := freed
  exact evicts u v file admitted (by rw [files]; exact alive)

theorem PageStep.balance (evictsFilled : EvictsFilled admits) (step : PageStep cfg admits f t t') :
    t'.store.fileN + t.store.filesHeldBut f = t.store.fileN + t'.store.filesHeldBut f := by
  cases step with
  | @evict s' v self file exhausted found evicts leaves freed =>
      have count := leaves.filesHeldBut evicts.toRemoves (freed.filled evictsFilled evicts.alive)
      have fileN := evicts.toRemoves.fileN
      show s'.store.fileN - 1 + _ = _ + (s'.store.filesHeldBut f : Int)
      rw [count, fileN, Int.natCast_add]
      omega
  | take list => rfl
  | give field found =>
      rw [filesHeldBut_setFile]
      rfl

theorem Allocates.balance (evictsFilled : EvictsFilled admits) (allocates : Allocates cfg admits f t t') :
    t'.store.fileN + t.store.filesHeldBut f = t.store.fileN + t'.store.filesHeldBut f := by
  obtain ⟨u, steps, settles⟩ := allocates
  rw [settles.fileN, settles.filesHeldBut]
  clear settles
  induction steps with
  | refl => rfl
  | tail before step ih =>
      have next := step.balance evictsFilled
      omega

theorem CountStep.balance (evictsFilled : EvictsFilled admits)
    (nonempty : ∀ u str, u.owner .fileN ≠ none → admits u (.stackTop str) → u.store.fstack.top ≠ 0)
    (counted : CountStep cfg admits f t t') :
    t'.store.fileN + t.store.filesHeldBut f = t.store.fileN + t'.store.filesHeldBut f + 1 := by
  cases counted with
  | increased room =>
      show t.store.fileN + 1 + (t.store.filesHeldBut f : Int) = t.store.fileN + t.store.filesHeldBut f + 1
      omega
  | evicted full evicts leaves freed =>
      have count := leaves.filesHeldBut evicts.toRemoves (freed.filled evictsFilled evicts.alive)
      have fileN := evicts.toRemoves.fileN
      omega
  | uncounted full empty admitted =>
      obtain ⟨u, store, held, admitted⟩ := admitted
      rw [← store] at empty
      exact absurd empty (nonempty u _ held admitted)

theorem PageStep.fileN_le (step : PageStep cfg admits f t t') : t'.store.fileN ≤ t.store.fileN := by
  cases step with
  | @evict s' v self file exhausted found evicts leaves freed =>
      have fileN := evicts.toRemoves.fileN
      show s'.store.fileN - 1 ≤ _
      omega
  | _ => exact Int.le_refl _

theorem Allocates.fileN_le (allocates : Allocates cfg admits f t t') :
    t'.store.fileN ≤ t.store.fileN := by
  obtain ⟨u, steps, settles⟩ := allocates
  rw [settles.fileN]
  clear settles
  induction steps with
  | refl => exact Int.le_refl _
  | tail before step ih => exact Int.le_trans step.fileN_le ih

theorem CountStep.fileN_le (counted : CountStep cfg admits f t t')
    (limited : t.store.fileN ≤ cfg.fileMax) : t'.store.fileN ≤ cfg.fileMax := by
  cases counted with
  | increased room => exact Int.add_one_le_iff.mpr room
  | evicted full evicts leaves freed => rwa [evicts.toRemoves.fileN]
  | uncounted full empty admitted => exact limited

/-! ## Requests -/

theorem evictsFilled (notDelete : r.deletes = false) : EvictsFilled (CountsExactly (W := W) r) := by
  intro u v file admitted alive empty
  have deletes := (admitted file alive).mp empty
  rw [notDelete] at deletes
  cases deletes

structure Exact (cfg : Config) (σ : Store) : Prop where
  fileN : σ.fileN = σ.filesHeld
  limit : σ.fileN ≤ cfg.fileMax

theorem Exact.settles (exact : Exact cfg σ) (settles : Settles σ σ') : Exact cfg σ' := by
  refine ⟨?_, ?_⟩
  · rw [settles.fileN, settles.filesHeld]
    exact exact.fileN
  · rw [settles.fileN]
    exact exact.limit

theorem Exact.create (exact : Exact cfg s.store) (idle : Idle cfg s) (path : Path) :
    Exact cfg (s.store.create cfg path) := by
  have perm := idle.consistent.recorded_create path
  have kept : ∀ g ∈ s.store.recorded, (s.store.create cfg path).files g = s.store.files g :=
    fun g mem => Function.update_of_ne (idle.consistent.ne_next mem) ..
  have new : (s.store.create cfg path).holdsPages s.store.next = false := by
    have found : (s.store.create cfg path).files s.store.next = some ⟨[], 0, path, 0, []⟩ :=
      Function.update_self ..
    simp [Store.holdsPages, found]
  have count := Store.filesHeld_of_perm perm kept
  rw [new] at count
  refine ⟨?_, exact.limit⟩
  rw [count]
  exact exact.fileN

theorem Course.exact (idle : Idle cfg s) (idle' : Idle cfg t') (exact : Exact cfg s.store)
    (course : Course cfg (CountsExactly r) s t' r) : Exact cfg t'.store := by
  cases course with
  | settled settles => exact exact.settles settles
  | created store =>
      rw [store]
      exact exact.create idle _
  | @deleted path pid v file t store removes freed =>
      rw [← store] at exact
      have consistent : Consistent cfg none [] t.store := by
        rw [store]
        exact idle.consistent
      obtain ⟨u, files, admitted⟩ := freed
      have empty : file.pagesN = 0 :=
        (admitted file (by rw [files]; exact removes.alive)).mpr rfl
      have none : t.store.holdsPages v = false := by simp [Store.holdsPages, removes.alive, empty]
      have count := Store.filesHeld_of_perm (removes.recorded consistent) fun g mem =>
        (removes.files fun same => removes.victim_nmem consistent (same ▸ mem)).symm
      rw [none] at count
      refine ⟨?_, ?_⟩
      · rw [removes.fileN, exact.fileN, count]
        rfl
      · rw [removes.fileN]
        exact exact.limit
  | @written path pid n data f file file' t u store searched target found empty others counted allocates
      recorded found' filled =>
      have evicts : EvictsFilled (CountsExactly (W := W) (.fileWrite path pid n data)) :=
        evictsFilled rfl
      have first := counted.balance evicts fun u str held admitted => admitted held
      have rest := allocates.balance evicts
      have before := Store.filesHeld_split target idle.consistent.nodup
      have after := Store.filesHeld_split recorded idle'.consistent.nodup
      rw [if_pos ((Store.holdsPages_of found').mpr filled)] at after
      rw [if_neg fun some => (Store.holdsPages_of found).mp some empty] at before
      rw [filesHeldBut_setFile, store] at first
      change u.store.fileN + _ = t.store.fileN + _ + 1 at first
      rw [store, exact.fileN] at first
      have limited : (t.setFile f (some (file.write (.size n)))).store.fileN ≤ cfg.fileMax := by
        show t.store.fileN ≤ cfg.fileMax
        rw [store]
        exact exact.limit
      refine ⟨by omega, ?_⟩
      exact Int.le_trans allocates.fileN_le (counted.fileN_le limited)
  | @appended path pid n data f file file' t store target found hasPages others allocates recorded found'
      filled =>
      have rest := allocates.balance (evictsFilled (r := .fileAppend path pid n data) rfl)
      have before := Store.filesHeld_split target idle.consistent.nodup
      have after := Store.filesHeld_split recorded idle'.consistent.nodup
      rw [if_pos ((Store.holdsPages_of found').mpr filled)] at after
      rw [if_pos ((Store.holdsPages_of found).mpr hasPages)] at before
      rw [store, exact.fileN] at rest
      refine ⟨by omega, Int.le_trans allocates.fileN_le ?_⟩
      rw [store]
      exact exact.limit

theorem ServedBy.served {admits : Request → Server W → Op → Prop} (served : ServedBy W cfg admits s) :
    Served W cfg (fun _ _ => True) s := by
  induction served with
  | initial => exact .initial
  | request before wellFormed completed admitted ih => exact ih.request wellFormed trivial completed

theorem ServedBy.exact (served : ServedBy W cfg CountsExactly s) : Exact cfg s.store := by
  induction served with
  | initial =>
      refine ⟨?_, Int.natCast_nonneg _⟩
      show (0 : Int) = ((memorySetup cfg).recorded.countP _ : Nat)
      simp [Store.recorded, memorySetup]
  | request before wellFormed completed admitted ih =>
      have idle := before.served.idle
      have course := Machine.run_of_along (passes_handle _ _ idle wellFormed) admitted completed
      exact course.exact idle (before.request wellFormed completed admitted).served.idle ih

/-- In every such run `file_n` is the number of recorded files that hold pages, and `FileNUpdate` only
evicts when there are `file_max` of them. -/
theorem file_count (served : ServedBy W cfg CountsExactly s) :
    s.store.fileN = s.store.filesHeld ∧
    ∀ w fuel fd r t, r.WellFormed →
      (server W cfg).Visits w (handle cfg fuel fd r) s (.stackGetTop .null) t →
      t.store.filesHeld = cfg.fileMax := by
  have exact := served.exact
  refine ⟨exact.fileN, fun w fuel fd r t wellFormed visits => ?_⟩
  cases event_of_visits served.served.idle wellFormed visits with
  | count midway settles full =>
      have counted := exact.settles settles
      have limit := counted.limit
      have fileN := counted.fileN
      show Store.filesHeld _ = cfg.fileMax
      have same : (_ : Int) = cfg.fileMax := Int.le_antisymm limit full
      rw [fileN] at same
      exact Int.ofNat_inj.mp same
  | calm calm => cases calm

end

/-! ## Runs on fixed requests -/

def checkAll (test : Request → Server Unit → Op → Bool) (cfg : Config) (fuel : Nat) :
    List Request → Server Unit → Bool
  | [], _ => true
  | r :: rs, s => (server Unit cfg).checks (test r) () (handle cfg fuel 0 r) s &&
      match (server Unit cfg).run () (handle cfg fuel 0 r) s with
      | .ok (_, s') => checkAll test cfg fuel rs s'
      | _ => false

theorem ServedBy.serve {cfg : Config} {fuel : Nat} {admits : Request → Server Unit → Op → Prop}
    {test : Request → Server Unit → Op → Bool} {s : Server Unit} {rs : List Request}
    (served : ServedBy Unit cfg admits s) (sound : ∀ r t o, test r t o = true → admits r t o)
    (wellFormed : ∀ r ∈ rs, r.WellFormed) (passed : checkAll test cfg fuel rs s = true) :
    ∃ s', FileServer.serve cfg fuel 0 rs s = some s' ∧ ServedBy Unit cfg admits s' := by
  induction rs generalizing s with
  | nil => exact ⟨s, rfl, served⟩
  | cons r rs ih =>
      unfold checkAll at passed
      obtain ⟨checked, rest⟩ := Bool.and_eq_true_iff.mp passed
      unfold FileServer.serve
      cases completed : (server Unit cfg).run () (handle cfg fuel 0 r) s with
      | ok result =>
          obtain ⟨⟨⟩, s₁⟩ := result
          rw [completed] at rest
          refine ih (served.request (wellFormed r List.mem_cons_self) completed fun o t visits => ?_)
            (fun r' mem => wellFormed r' (List.mem_cons_of_mem r mem)) rest
          exact sound r t o (Machine.checks_visits checked visits)
      | _ =>
          rw [completed] at rest
          cases rest

theorem servedBy_reached {cfg : Config} {fuel : Nat} {admits : Request → Server Unit → Op → Prop}
    {rs : List Request} (test : Request → Server Unit → Op → Bool)
    (sound : ∀ r t o, test r t o = true → admits r t o) (wellFormed : ∀ r ∈ rs, r.WellFormed)
    (passed : checkAll test cfg fuel rs (Server.initial Unit cfg) = true) :
    ServedBy Unit cfg admits (reached cfg fuel rs) := by
  obtain ⟨s', ran, served⟩ := ServedBy.initial.serve sound wellFormed passed
  unfold reached
  rw [ran]
  exact served

def countsExactly (r : Request) (t : Server Unit) : Op → Bool
  | .free v => (t.store.files v).all fun file => (file.pagesN == 0) == r.deletes
  | .stackTop _ => t.owner .fileN == none || t.store.fstack.top != 0
  | _ => true

theorem countsExactly_sound (r : Request) (t : Server Unit) (o : Op)
    (passed : countsExactly r t o = true) : CountsExactly r t o := by
  cases o with
  | free v =>
      intro file alive
      simp only [countsExactly, alive, Option.all_some, beq_iff_eq] at passed
      rw [← passed]
      exact beq_iff_eq.symm
  | stackTop path =>
      intro held
      simpa [countsExactly, held] using passed
  | _ => trivial

/-- A deleted file stays counted. -/
theorem file_miscount : Served Unit smallConfig (fun _ _ => True) (reached smallConfig 5 deletedFile) ∧
    (reached smallConfig 5 deletedFile).store.fileN ≠
      (reached smallConfig 5 deletedFile).store.filesHeld :=
  ⟨served_reached (by simp [deletedFile, Request.WellFormed]) (fun _ _ _ => trivial)
    (by decide +kernel), by decide +kernel⟩

def threeFiles : List Request :=
  twoFiles ++ [.fileInit [99], .fileOpen [99] 7, .fileWrite [99] 7 4 [9, 9, 9, 9]]

theorem file_count_example : (reached smallConfig 5 threeFiles).store.fileN =
      (reached smallConfig 5 threeFiles).store.filesHeld ∧
    ∀ w fuel fd r t, r.WellFormed →
      (server Unit smallConfig).Visits w (handle smallConfig fuel fd r)
        (reached smallConfig 5 threeFiles) (.stackGetTop .null) t →
      t.store.filesHeld = smallConfig.fileMax :=
  file_count (servedBy_reached countsExactly countsExactly_sound
    (by simp [threeFiles, twoFiles, deletedFile, Request.WellFormed]) (by decide +kernel))

end FileServer
