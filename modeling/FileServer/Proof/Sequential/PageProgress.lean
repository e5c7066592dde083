import FileServer.Proof.Sequential.StackBounds

/-!
# The progress of `pageGet`

When a call of `pageGet` for a file that is being written comes back, and what it evicts.
-/

namespace FileServer
open Program

section
variable {W : Type} {cfg : Config} {w : W} {s t t' : Server W} {f v : FileId} {file : MemFile}

/-! ## Runs of the page functions -/

theorem run_pageAddAll (pages : List Nat) (free : t.owner .pages = none) :
    (server W cfg).run w (pageAddAll pages) t =
      .ok ((), t.setStore { t.store with pages := pages.reverse ++ t.store.pages }) := by
  induction pages generalizing t with
  | nil => rfl
  | cons page pages ih =>
      have add : (server W cfg).run w (pageAdd page) t =
          .ok ((), t.setStore { t.store with pages := page :: t.store.pages }) := by
        unfold pageAdd
        rw [Machine.run_bind_of (run_lock (m := .pages) trivial free),
          Machine.run_bind_of ((run_call _).trans rfl), run_unlock (m := .pages) trivial]
        exact congrArg (fun u => Outcome.ok ((), u)) (setStore_release _ free)
      have rest := ih (t := t.setStore { t.store with pages := page :: t.store.pages }) free
      unfold pageAddAll
      rw [Machine.run_bind_of add, rest, List.reverse_cons, List.append_assoc]
      rfl

theorem run_pageTake (free : t.owner .pages = none) {page : Nat} {rest : List Nat}
    (list : t.store.pages = page :: rest) : (server W cfg).run w pageTake t =
      .ok (some page, t.setStore { t.store with pages := rest }) := by
  have take : Server.exec cfg w .pageTake (t.setOwner .pages (some w)) =
      .ok (some page, (t.setOwner .pages (some w)).setStore { t.store with pages := rest }) := by
    simp [Server.exec, list]
  unfold pageTake
  rw [Machine.run_bind_of (run_lock (m := .pages) trivial free),
    Machine.run_bind_of ((run_call _).trans take),
    Machine.run_bind_of (run_unlock (m := .pages) trivial), setStore_release _ free]
  rfl

theorem run_pageTake_none (free : t.owner .pages = none) (list : t.store.pages = []) :
    (server W cfg).run w pageTake t = .ok (none, t) := by
  have take : Server.exec cfg w .pageTake (t.setOwner .pages (some w)) =
      .ok (none, t.setOwner .pages (some w)) := by
    simp [Server.exec, list]
  unfold pageTake
  rw [Machine.run_bind_of (run_lock (m := .pages) trivial free),
    Machine.run_bind_of ((run_call _).trans take),
    Machine.run_bind_of (run_unlock (m := .pages) trivial), Server.setOwner_release t w free]
  rfl

theorem run_fileNDecrease (free : t.owner .fileN = none) : (server W cfg).run w fileNDecrease t =
    .ok ((), t.setStore { t.store with fileN := t.store.fileN - 1 }) := by
  unfold fileNDecrease
  rw [Machine.run_bind_of (run_lock (m := .fileN) trivial free),
    Machine.run_bind_of ((run_call _).trans rfl), run_unlock (m := .fileN) trivial]
  exact congrArg (fun u => Outcome.ok ((), u)) (setStore_release _ free)

theorem run_fileFree (free : t.owner .pages = none) (alive : t.store.files v = some file)
    (whole : file.pagesN ≤ file.pages.length) :
    (server W cfg).run w (fileFree v) t = .ok ((), t.setStore { t.store with
      files := Function.update t.store.files v none
      pages := (file.pages.take file.pagesN).reverse ++ t.store.pages }) := by
  have step : (server W cfg).run w (call (.free v)) t = .ok (file, t.setFile v none) :=
    (run_call _).trans (Server.onFile_some _ alive)
  unfold fileFree
  rw [Machine.run_bind_of step, if_neg (Nat.not_lt.mpr whole)]
  exact run_pageAddAll _ free

theorem run_fileDeleteFIFO {str : CStr} {path : Option Path} {stack : FileStack}
    {found : Option FileId} {σ : Store}
    (unlocked : ∀ m ∈ [Mutex.filestack, .hashTB, .pages, .file v], t.owner m = none) (read : t.readStr str = .ok path) (nonempty : t.store.fstack.top ≠ 0)
    (chosen : t.store.fstack.getTop (t.store.lookup cfg) path = .ok (v, stack))
    (alive : t.store.files v = some file) (whole : file.pagesN ≤ file.pages.length)
    (removed : t.store.hashTbSearch cfg file.abspath .del = .ok (found, σ)) :
    ∃ t', (server W cfg).run w (fileDeleteFIFO str) t = .ok (0, t') ∧ Removes cfg t t' v file ∧
      t'.store.fstack = stack := by
  obtain ⟨u, named⟩ : ∃ u, t.setOwner .filestack (some w) = u := ⟨_, rfl⟩
  have store : u.store = t.store := by rw [← named]; rfl
  have free {m : Mutex} (mem : m ∈ [Mutex.filestack, .hashTB, .pages, .file v])
      (notStack : m ≠ .filestack) : u.owner m = none := by
    rw [← named, Server.setOwner_owner_of_ne _ _ notStack]
    exact unlocked m mem
  have scan : (server W cfg).run w (fileStackGetTop str) u = .ok (some v, u.setStack stack) := by
    have readU : u.readStr str = .ok path := by rw [← named, readStr_setOwner, read]
    have nonemptyU : u.store.fstack.top ≠ 0 := by rw [store]; exact nonempty
    rw [run_fileStackGetTop (free (by simp) (by simp)) readU nonemptyU, store, chosen]
    rfl
  have searched : ((u.setStack stack).setOwner (.file v) (some w)).store.hashTbSearch cfg file.abspath
      .del = .ok (found, { σ with fstack := stack }) := by
    show ({ u.store with fstack := stack } : Store).hashTbSearch cfg file.abspath .del = _
    rw [hashTbSearch_setStack, store, removed]
    rfl
  have aliveU : u.store.files v = some file := by rw [store]; exact alive
  have files : σ.files v = some file := by
    rw [hashTbSearch_table removed]
    exact alive
  have lives {u₁ : Server W} (here : u₁.store.files v = some file) : u₁.Live (.file v) := by
    show u₁.store.files v ≠ none
    rw [here]
    exact Option.some_ne_none file
  have vfree : (u.setStack stack).owner (.file v) = none := free (by simp) (by simp)
  have hashFree : ((u.setStack stack).setOwner (.file v) (some w)).owner .hashTB = none := by
    have same : ((u.setStack stack).setOwner (.file v) (some w)).owner .hashTB = u.owner .hashTB := by
      simp [Server.setStack]
    rw [same]
    exact free (by simp) (by simp)
  have path : ((u.setStack stack).setOwner (.file v) (some w)).readStr (.abspath v) =
      .ok (some file.abspath) := Server.onFile_some _ aliveU
  obtain ⟨u₁, named₁⟩ : ∃ u₁, ((u.setStack stack).setOwner (.file v) (some w)).setStore
      { σ with fstack := stack } = u₁ := ⟨_, rfl⟩
  have files₁ : u₁.store.files v = some file := by rw [← named₁]; exact files
  have pagesFree : ((u₁.setOwner (.file v) none).setOwner .filestack none).owner .pages = none := by
    have same : ((u₁.setOwner (.file v) none).setOwner .filestack none).owner .pages = u.owner .pages := by
      simp [← named₁, Server.setStack]
    rw [same]
    exact free (by simp) (by simp)
  have freed : (server W cfg).run w (fileFree v) ((u₁.setOwner (.file v) none).setOwner .filestack none) = _ :=
    run_fileFree pagesFree files₁ whole
  have fields : σ = { t.store with table := σ.table } := hashTbSearch_table removed
  have released : (u₁.setOwner (.file v) none).setOwner .filestack none =
      t.setStore { σ with fstack := stack } := by
    rw [← named₁, ← named]
    cases t with
    | mk store owner sent =>
        simp only [Server.setOwner, Server.setStack, Server.setStore, Server.mk.injEq, true_and, and_true]
        funext m
        by_cases stackMutex : m = .filestack
        · subst stackMutex
          simpa using (unlocked .filestack (by simp)).symm
        · by_cases victim : m = .file v
          · subst victim
            simpa using (unlocked (.file v) (by simp)).symm
          · simp [stackMutex, victim]
  rw [released] at freed
  have removes : Removes cfg t ((t.setStore { σ with fstack := stack }).setStore { σ with
      fstack := stack
      files := Function.update σ.files v none
      pages := (file.pages.take file.pagesN).reverse ++ σ.pages }) v file := by
    refine ⟨alive, unlocked _ (by simp), FileStack.getTop_found chosen, ⟨found, ?_⟩, ?_⟩
    · rw [removed]
      exact congrArg (fun σ => Outcome.ok (found, σ)) fields
    · rw [fields]
      rfl
  refine ⟨_, ?_, removes, rfl⟩
  unfold fileDeleteFIFO
  rw [Machine.run_bind_of (run_lock (m := .filestack) trivial (unlocked _ (by simp))), named,
    Machine.run_bind_of scan]
  have locked : (server W cfg).run w (lock (.file v)) (u.setStack stack) = _ :=
    run_lock (lives aliveU) vfree
  dsimp only
  rw [Machine.run_bind_of locked, Machine.run_bind_of (run_hashGetFile hashFree path searched), named₁,
    Machine.run_bind_of (run_unlock (lives files₁)),
    Machine.run_bind_of (run_unlock (m := .filestack) trivial), released, Machine.run_bind_of freed]
  rfl

/-! ## Calls of `pageGet` -/

/-- What `pageGet` promises: it returns, and as long as the list is empty `fileDeleteFIFO` removes
exactly one file, not `f`, that holds pages, and the list is no longer empty. -/
structure Progresses (cfg : Config) (w : W) (f : FileId) (t : Server W) : Prop where
  returns : ∃ n, ∀ fuel, n ≤ fuel →
    ∃ page t', (server W cfg).run w (pageGet fuel (.abspath f)) t = .ok (page, t')
  evicts : t.store.pages = [] → ∃ v t', v ≠ f ∧ t.store.holdsPages v = true ∧
    (server W cfg).run w (fileDeleteFIFO (.abspath f)) t = .ok (0, t') ∧
    t.store.recorded.Perm (v :: t'.store.recorded) ∧ t'.store.pages ≠ []

/-- The list has a page, or the first recorded name from the top, passing over the uppermost cell if it
names `f`, names another file, which holds pages; and that cell is no hole. -/
def FindsPages (cfg : Config) (f : FileId) (t : Server W) : Prop :=
  t.store.pages = [] → ∀ path, t.readStr (.abspath f) = .ok path → t.store.fstack.Comparable path ∧
    ∃ i v, t.store.fstack.Uppermost (t.store.lookup cfg) path i v ∧ v ≠ f ∧
      t.store.holdsPages v = true

theorem Midway.unlocked (midway : Midway cfg w s f t) (idle : Idle cfg s) {m : Mutex}
    (other : m ≠ .file f) : t.owner m = none := by
  obtain ⟨fd, msg, shrinks⟩ := midway.shrinks
  rw [shrinks.owner, Server.send_owner, Server.setOwner_owner_of_ne _ _ other]
  exact idle.unlocked m

theorem Midway.scanFree (midway : Midway cfg w s f t) (idle : Idle cfg s) (other : v ≠ f) :
    ∀ m ∈ [Mutex.filestack, .hashTB, .pages, .file v], t.owner m = none := by
  intro m mem
  refine midway.unlocked idle ?_
  rintro rfl
  simp [Ne.symm other] at mem

theorem Midway.filled (midway : Midway cfg w s f t) (other : v ≠ f) (mem : v ∈ t.store.recorded)
    (alive : t.store.files v = some file) : file.pages.length = file.pagesN := by
  obtain ⟨busy, extra, only, consistent⟩ := midway.consistent
  exact (consistent.shaped v file mem alive fun same => other (only v same.symm)).filled

theorem Midway.whole (midway : Midway cfg w s f t) (name : Path) (v : FileId) (file : MemFile)
    (named : t.store.lookup cfg name = .ok (some v)) (free : t.owner (.file v) = none)
    (alive : t.store.files v = some file) : file.pagesN ≤ file.pages.length := by
  have mem := Store.hashTbSearch_mem (Store.lookup_eq_ok.mp named)
  refine Nat.le_of_eq (midway.filled ?_ mem alive).symm
  rintro rfl
  cases midway.held.symm.trans free

theorem Removes.victim_eq {busy : Option FileId} {extra : List Nat} {g : FileId}
    (removes : Removes cfg t t' v file) (consistent : Consistent cfg busy extra t.store)
    (mem : g ∈ t.store.recorded) (gone : g ∉ t'.store.recorded) : g = v :=
  (List.mem_cons.mp ((removes.recorded consistent).mem_iff.mp mem)).resolve_right gone

theorem evicts_of_run {str : CStr} (event : Event cfg w s (t.picking w) (.stackGetTop str))
    (whole : ∀ name v file, t.store.lookup cfg name = .ok (some v) → t.owner (.file v) = none →
      t.store.files v = some file → file.pagesN ≤ file.pages.length)
    (ran : (server W cfg).run w (fileDeleteFIFO str) t = .ok (0, t')) :
    ∃ path v file, t.readStr str = .ok path ∧ Evicts cfg path t t' v file := by
  have passes : Passes (fun _ _ => True) cfg w s (fileDeleteFIFO str) (fun ret t' => ret = 0 →
      ∃ path v file, t.readStr str = .ok path ∧ Evicts cfg path t t' v file) t :=
    passes_fileDeleteFIFO event whole (fun _ _ => nofun)
      fun path v file t' read evicts _ _ => ⟨path, v, file, read, evicts⟩
  exact Machine.run_of_along passes (fun _ _ _ => trivial) ran rfl

theorem Midway.progresses (midway : Midway cfg w s f t) (idle : Idle cfg s)
    (bounded : t.store.fstack.Bounded cfg) : Progresses cfg w f t ↔ FindsPages cfg f t := by
  have inside : t.store.fstack.top ≤ t.store.fstack.stack.length := by
    rw [bounded.length]
    exact bounded.top
  obtain ⟨busy, extra, only, consistent⟩ := midway.consistent
  have free : t.owner .pages = none := midway.unlocked idle nofun
  constructor
  · rintro progresses exhausted path read
    obtain ⟨v, t', other, holds, ran, perm, -⟩ := progresses.evicts exhausted
    obtain ⟨path', v', file, read', evicts⟩ := evicts_of_run (.pick midway exhausted) midway.whole ran
    cases read.symm.trans read'
    obtain ⟨comparable, i, uppermost, -⟩ :=
      (FileStack.getTop_eq_ok (midway.total ·) inside).mp evicts.chosen
    -- the record that left the table is the one that the scan found
    have nodup := perm.nodup_iff.mp consistent.nodup
    have same : v = v' := evicts.victim_eq consistent (perm.mem_iff.mpr List.mem_cons_self)
      (List.nodup_cons.mp nodup).1
    subst same
    exact ⟨comparable, i, v, uppermost, other, holds⟩
  · intro finds
    have evicts (exhausted : t.store.pages = []) : ∃ v t', v ≠ f ∧ t.store.holdsPages v = true ∧
        (server W cfg).run w (fileDeleteFIFO (.abspath f)) t = .ok (0, t') ∧
        t.store.recorded.Perm (v :: t'.store.recorded) ∧ t'.store.pages ≠ [] := by
      obtain ⟨self, selfAlive⟩ := midway.alive
      have read : t.readStr (.abspath f) = .ok (some self.abspath) := Server.onFile_some _ selfAlive
      obtain ⟨comparable, i, v, uppermost, other, holds⟩ := finds exhausted _ read
      have chosen := (FileStack.getTop_eq_ok (midway.total ·) inside).mpr ⟨comparable, i, uppermost, rfl⟩
      obtain ⟨name, -, searched⟩ := uppermost.live
      have mem := Store.hashTbSearch_mem (Store.lookup_eq_ok.mp searched)
      obtain ⟨file, alive⟩ := consistent.alive mem
      obtain ⟨found, σ, removed⟩ := consistent.search_ok file.abspath .del
      have nonempty : t.store.fstack.top ≠ 0 := Nat.ne_of_gt (Nat.zero_lt_of_lt uppermost.below)
      have filled := midway.filled other mem alive
      obtain ⟨t', ran, -⟩ := run_fileDeleteFIFO (midway.scanFree idle other) read nonempty chosen alive
        (Nat.le_of_eq filled.symm) removed
      obtain ⟨path, v', file', read', evicts⟩ := evicts_of_run (.pick midway exhausted) midway.whole ran
      cases read.symm.trans read'
      have same : v' = v := by
        have both := chosen.symm.trans evicts.chosen
        simp only [Outcome.ok.injEq, Prod.mk.injEq] at both
        exact both.1.symm
      subst same
      refine ⟨v', t', other, holds, ran, evicts.recorded consistent, fun none => ?_⟩
      cases Option.some.inj (alive.symm.trans evicts.alive)
      rw [evicts.result] at none
      obtain ⟨noPages, -⟩ := List.append_eq_nil_iff.mp none
      rw [List.reverse_eq_nil_iff, ← filled, List.take_length] at noPages
      rw [noPages] at filled
      exact (Store.holdsPages_of alive).mp holds filled.symm
    refine ⟨⟨1, fun fuel positive => ?_⟩, evicts⟩
    unfold pageGet
    cases list : t.store.pages with
    | cons page rest =>
        rw [Machine.run_bind_of (run_pageTake free list)]
        exact ⟨page, _, rfl⟩
    | nil =>
        obtain ⟨v, t', -, -, ran, -, refilled⟩ := evicts list
        obtain ⟨_, _, _, -, removes⟩ := evicts_of_run (.pick midway list) midway.whole ran
        have owner : t'.owner = t.owner := by
          rw [removes.result]
          rfl
        have decrease : (server W cfg).run w fileNDecrease t' = _ :=
          run_fileNDecrease (by rw [owner]; exact midway.unlocked idle nofun)
        obtain ⟨page, rest, list'⟩ := List.exists_cons_of_ne_nil refilled
        rw [Machine.run_bind_of (run_pageTake_none free list)]
        cases fuel with
        | zero => cases positive
        | succ fuel =>
            have take : (server W cfg).run w pageTake
                (t'.setStore { t'.store with fileN := t'.store.fileN - 1 }) = _ :=
              run_pageTake (by rw [Server.setStore_owner, owner]; exact free) list'
            show ∃ page u, (server W cfg).run w (pageGetLoop (.abspath f) (fuel + 1)) t = .ok (page, u)
            rw [pageGetLoop_succ, Machine.run_bind_of ran, if_pos (by decide),
              Machine.run_bind_of decrease, pageRetry, Machine.run_bind_of take]
            exact ⟨page, _, rfl⟩

/-- Every call of `pageGet` that a request comes to, for the file `f` whose mutex it holds, makes progress exactly if it finds
pages to take or to free. -/
theorem page_progress (served : Served W cfg (fun _ _ => True) s) :
    ∀ w fuel fd r t, r.WellFormed → (server W cfg).Visits w (handle cfg fuel fd r) s .pageTake t →
      ∃ f, (∀ g, t.owner (.file g) ≠ none ↔ g = f) ∧ (Progresses cfg w f (t.setOwner .pages none) ↔
        FindsPages cfg f (t.setOwner .pages none)) := by
  intro w fuel fd r t wellFormed visits
  have idle := served.idle
  obtain ⟨bounded, -⟩ : StackAsks cfg w t .pageTake :=
    Machine.visits_of_along (bounds_handle fuel fd r served.bounded) (fun _ _ _ => trivial) visits
  cases event_of_visits idle wellFormed visits with
  | @take f t₀ midway =>
      have release : (t₀.setOwner .pages (some w)).setOwner .pages none = t₀ :=
        Server.setOwner_release t₀ w (midway.unlocked idle nofun)
      rw [release]
      refine ⟨f, fun g => ?_, midway.progresses idle bounded⟩
      show (Function.update t₀.owner .pages (some w)) (.file g) ≠ none ↔ g = f
      rw [Function.update_of_ne (by simp)]
      constructor
      · intro held
        by_contra other
        exact held (midway.unlocked idle (by simpa using other))
      · rintro rfl
        rw [midway.held]
        nofun
  | calm calm => cases calm

end

/-! ## A call that makes no progress -/

/-- Ten bytes behind six make sixteen, which need the four pages there are. -/
def sixAndTen : List Request := [.fileInit [97], .fileOpen [97] 7, .fileWrite [97] 7 6 [1, 2, 3, 4, 5, 6]]

def findsNothing (t : Server Unit) : Op → Bool
  | .pageTake => t.owner (.file 0) ≠ some () || t.store.pages ≠ [] ||
      !((server Unit smallConfig).run () (fileDeleteFIFO (.abspath 0))
        (t.setOwner .pages none)).isFault .stackIndex
  | _ => true

/-- `fileAppend` asks for a fifth page: the file holds all pages, and there is no other to evict. -/
theorem page_stuck : Served Unit smallConfig (fun _ _ => True) (reached smallConfig 5 sixAndTen) ∧
    pagesFor smallConfig (6 + 10) ≤ (reached smallConfig 5 sixAndTen).store.pageN ∧
    ∃ t, (server Unit smallConfig).Visits () (handle smallConfig 5 0
        (.fileAppend [97] 7 10 [1, 2, 3, 4, 5, 6, 7, 8, 9, 10])) (reached smallConfig 5 sixAndTen)
        .pageTake t ∧
      t.owner (.file 0) = some () ∧ ¬Progresses smallConfig () 0 (t.setOwner .pages none) := by
  refine ⟨served_reached (by simp [sixAndTen, Request.WellFormed]) (fun _ _ _ => trivial)
    (by decide +kernel), by decide +kernel, ?_⟩
  have stuck : (server Unit smallConfig).checks findsNothing ()
      (handle smallConfig 5 0 (.fileAppend [97] 7 10 [1, 2, 3, 4, 5, 6, 7, 8, 9, 10]))
        (reached smallConfig 5 sixAndTen) = false := by decide +kernel
  obtain ⟨o, t, visits, failed⟩ := Machine.visits_of_checks stuck
  cases o with
  | pageTake =>
      simp only [findsNothing, Bool.or_eq_false_iff, decide_eq_false_iff_not, not_not,
        Bool.not_eq_false'] at failed
      obtain ⟨⟨held, exhausted⟩, fails⟩ := failed
      refine ⟨t, visits, held, fun progresses => ?_⟩
      obtain ⟨v, t', -, -, ran, -⟩ := progresses.evicts exhausted
      rw [ran] at fails
      cases fails
  | _ => cases failed

def allPages : List Request :=
  [.fileInit [97], .fileOpen [97] 7, .fileWrite [97] 7 16 (List.replicate 16 1), .fileInit [98], .fileOpen [98] 7]

def findsPage (t : Server Unit) : Op → Bool
  | .pageTake => t.store.pages ≠ []
  | _ => true

theorem page_progress_example : ∃ t,
    (server Unit smallConfig).Visits () (handle smallConfig 5 0 (.fileWrite [98] 7 2 [9, 9]))
      (reached smallConfig 5 allPages) .pageTake t ∧ t.store.pages = [] ∧
    ∃ f, (∀ g, t.owner (.file g) ≠ none ↔ g = f) ∧
      (Progresses smallConfig () f (t.setOwner .pages none) ↔
        FindsPages smallConfig f (t.setOwner .pages none)) := by
  have taken : (server Unit smallConfig).checks findsPage () (handle smallConfig 5 0 (.fileWrite [98] 7 2 [9, 9]))
      (reached smallConfig 5 allPages) = false := by decide +kernel
  obtain ⟨o, t, visits, failed⟩ := Machine.visits_of_checks taken
  cases o with
  | pageTake =>
      have empty : t.store.pages = [] := by simpa [findsPage] using failed
      exact ⟨t, visits, empty, page_progress (served_reached (by simp [allPages, Request.WellFormed])
        (fun _ _ _ => trivial) (by decide +kernel)) () 5 0 (.fileWrite [98] 7 2 [9, 9]) t
        (by simp [Request.WellFormed]) visits⟩
  | _ => cases failed

end FileServer
