import FileServer.Proof.Concurrent.Holding
import Mathlib.Algebra.BigOperators.Group.Finset.Piecewise
import Mathlib.Algebra.BigOperators.Group.Finset.Basic
import Mathlib.Algebra.Group.Int.Defs
import Mathlib.Data.Fintype.Card

/-!
# The number of files that hold pages
-/

namespace FileServer
open Program

def Store.pagesAt (σ : Store) (f : FileId) : Nat := (σ.files f).elim 0 MemFile.pagesN

def Store.written (σ : Store) : Finset FileId := (Finset.range σ.next).filter fun f => σ.pagesAt f ≠ 0

/-- A file is counted with the stack not empty, an eviction frees a file that holds pages, and only
a file that holds pages gets more. -/
structure CountsFiles {W : Type} (s : System Op Op.Resp W (Server W)) (w : W) : Prop where
  counted : ∀ str next, s.threads w = .op (.stackTop str) next → s.state.owner .fileN = some w →
    s.state.store.fstack.top ≠ 0
  evicted : ∀ f next, s.threads w = .op (.free f) next → (∃ m, s.state.owner m = some w) →
    s.state.store.pagesAt f ≠ 0
  renewed : ∀ f dim pages next, s.threads w = .op (.store f (.pagesRenew dim pages)) next →
    s.state.store.pagesAt f ≠ 0

section
variable {W : Type} {cfg : Config} {w : W} {s s' : Server W} {f : FileId} {file : MemFile} {h : Hand}
  {σ σ' : Store}

/-! ## Files that hold pages -/

theorem Store.pagesAt_of (found : σ.files f = some file) : σ.pagesAt f = file.pagesN := by
  rw [pagesAt, found]
  rfl

theorem mem_written : f ∈ σ.written ↔ f < σ.next ∧ σ.pagesAt f ≠ 0 := by
  rw [Store.written, Finset.mem_filter, Finset.mem_range]

theorem Registered.mem_written (registered : Registered cfg σ) (some : σ.pagesAt f ≠ 0) :
    f ∈ σ.written := by
  refine FileServer.mem_written.mpr ⟨?_, some⟩
  by_contra outside
  apply some
  rw [Store.pagesAt, registered.fresh f (Nat.le_of_not_lt outside)]
  rfl

theorem written_congr (files : σ'.files = σ.files) (next : σ'.next = σ.next) : σ'.written = σ.written := by
  unfold Store.written Store.pagesAt
  rw [files, next]

theorem pagesAt_setFile_of_ne {g : FileId} (other : g ≠ f) (file : Option MemFile) :
    (s.setFile f file).store.pagesAt g = s.store.pagesAt g :=
  congrArg (fun file => Option.elim file 0 MemFile.pagesN) (Function.update_of_ne other ..)

theorem pagesAt_setFile_self (file : Option MemFile) :
    (s.setFile f file).store.pagesAt f = file.elim 0 MemFile.pagesN :=
  congrArg (fun file => Option.elim file 0 MemFile.pagesN) (Function.update_self ..)

theorem written_setFile (file : Option MemFile) :
    (s.setFile f file).store.written ⊆ insert f s.store.written := by
  intro g mem
  obtain ⟨lt, some⟩ := mem_written.mp mem
  by_cases same : g = f
  · exact Finset.mem_insert.mpr (.inl same)
  · rw [pagesAt_setFile_of_ne same] at some
    exact Finset.mem_insert_of_mem (mem_written.mpr ⟨lt, some⟩)

theorem written_setFile_sub (file : Option MemFile)
    (noMore : (s.setFile f file).store.pagesAt f ≠ 0 → s.store.pagesAt f ≠ 0) :
    (s.setFile f file).store.written ⊆ s.store.written := by
  intro g mem
  rcases Finset.mem_insert.mp (written_setFile file mem) with rfl | before
  · obtain ⟨lt, some⟩ := mem_written.mp mem
    exact mem_written.mpr ⟨lt, noMore some⟩
  · exact before

theorem written_free : (s.setFile f none).store.written = s.store.written.erase f := by
  ext g
  rw [Finset.mem_erase, mem_written, mem_written]
  by_cases same : g = f
  · subst same
    rw [pagesAt_setFile_self]
    exact iff_of_false (fun wrong => wrong.2 rfl) fun wrong => wrong.1 rfl
  · rw [pagesAt_setFile_of_ne same]
    exact (and_iff_right same).symm

theorem written_newFile {path : Path} (registered : Registered cfg s.store)
    (step : Server.exec cfg w (.newFile path) s = .ok (f, s')) :
    s'.store.written ⊆ s.store.written := by
  cases step
  intro g mem
  obtain ⟨-, some⟩ := mem_written.mp mem
  by_cases same : g = s.store.next
  · subst same
    refine (some ?_).elim
    show Option.elim (Function.update s.store.files s.store.next _ s.store.next) 0 _ = 0
    rw [Function.update_self]
    rfl
  · apply registered.mem_written
    have before : Option.elim (Function.update s.store.files s.store.next _ g) 0 MemFile.pagesN ≠ 0 :=
      some
    rwa [Function.update_of_ne same] at before

/-! ## The account of one worker -/

theorem Hand.after_credit {o : Op} {x : o.Resp} (quiet : o.quiet = true) :
    (h.after o x).credit = h.credit := by
  cases o with
  | hashTbSearch str flag => cases flag <;> rfl
  | lock m => cases quiet
  | free f => cases quiet
  | fileNIncrease max => cases quiet
  | fileNDecrease => cases quiet
  | store f field => cases quiet
  | _ => rfl

/-- The worker's credit and the files that hold pages grow no faster than `file_n`, and `file_n` stays
within the limit. -/
def Balanced (cfg : Config) (h h' : Hand) (s s' : Server W) : Prop :=
  h'.credit + s'.store.written.card + s.store.fileN ≤ h.credit + s.store.written.card + s'.store.fileN ∧
    (s.store.fileN ≤ cfg.fileMax → s'.store.fileN ≤ cfg.fileMax)

theorem balanced_of {h' : Hand} (credit : h'.credit = h.credit)
    (sub : s'.store.written ⊆ s.store.written) (fileN : s'.store.fileN = s.store.fileN) :
    Balanced cfg h h' s s' := by
  have fewer := Finset.card_le_card sub
  rw [Balanced, credit, fileN]
  exact ⟨by omega, id⟩

theorem balanced_of_same {h' : Hand} (credit : h'.credit = h.credit)
    (files : s'.store.files = s.store.files) (next : s'.store.next = s.store.next)
    (fileN : s'.store.fileN = s.store.fileN) : Balanced cfg h h' s s' :=
  balanced_of credit (written_congr files next).subset fileN

theorem balanced_store {field : FieldWrite} (allowed : h.allows cfg True (.store f field))
    (renewed : ∀ dim pages, field = .pagesRenew dim pages → s.store.pagesAt f ≠ 0)
    (step : Server.exec cfg w (.store f field) s = .ok ((), s')) :
    Balanced cfg h (h.after (.store f field) ()) s s' := by
  obtain ⟨file, found, rfl⟩ := exec_store step
  have before := Store.pagesAt_of found
  have keeps (same : (file.write field).pagesN = file.pagesN) :
      (s.setFile f (some (file.write field))).store.written ⊆ s.store.written := by
    apply written_setFile_sub
    rw [pagesAt_setFile_self, before]
    show (file.write field).pagesN ≠ 0 → _
    rw [same]
    exact id
  cases field with
  | pagesN n =>
      by_cases none : n = 0
      · subst none
        refine balanced_of rfl (written_setFile_sub _ fun some => ?_) rfl
        rw [pagesAt_setFile_self] at some
        exact (some rfl).elim
      · have credited : 0 < h.credit := allowed.2 trivial none
        have more := (Finset.card_le_card (written_setFile (s := s) (f := f)
          (some (file.write (.pagesN n))))).trans (Finset.card_insert_le ..)
        have credit : (h.after (.store f (.pagesN n)) ()).credit = h.credit - 1 := if_pos none
        rw [Balanced, credit]
        refine ⟨?_, id⟩
        show ((h.credit - 1 : ℕ) : ℤ) + _ + s.store.fileN ≤ _ + _ + s.store.fileN
        omega
  | pagesRenew dim pages =>
      exact balanced_of rfl (written_setFile_sub _ fun _ => renewed dim pages rfl) rfl
  | _ => exact balanced_of rfl (keeps rfl) rfl

theorem balanced_free (registered : Registered cfg s.store)
    (step : Server.exec cfg w (.free f) s = .ok (file, s')) :
    Balanced cfg h (h.after (.free f) file) s s' := by
  obtain ⟨found, rfl⟩ := exec_free step
  refine ⟨?_, id⟩
  rw [written_free]
  show ((if file.pagesN ≠ 0 then h.credit + 1 else h.credit : ℕ) : ℤ) + _ + s.store.fileN ≤
    _ + _ + s.store.fileN
  by_cases none : file.pagesN = 0
  · have fewer := Finset.card_erase_le (s := s.store.written) (a := f)
    rw [if_neg (not_not.mpr none)]
    omega
  · have mem : f ∈ s.store.written := by
      apply registered.mem_written
      rw [Store.pagesAt_of found]
      exact none
    have fewer := Finset.card_erase_add_one mem
    rw [if_pos none]
    omega

theorem balanced_exec {o : Op} {x : o.Resp} (registered : Registered cfg s.store)
    (allowed : h.allows cfg True o)
    (renewed : ∀ f dim pages, o = .store f (.pagesRenew dim pages) → s.store.pagesAt f ≠ 0)
    (step : Server.exec cfg w o s = .ok (x, s')) : Balanced cfg h (h.after o x) s s' := by
  cases performed step with
  | @lock m live free =>
      have credit : (h.after (.lock m) ()).credit = h.credit := by cases m <;> rfl
      exact balanced_of_same credit rfl rfl rfl
  | @store f field file found =>
      exact balanced_store allowed (fun dim pages same => renewed f dim pages (same ▸ rfl)) step
  | newFile => exact balanced_of rfl (written_newFile registered step) rfl
  | free found => exact balanced_free registered step
  | @hashTbSearch str flag table x known length fewer =>
      have credit : (h.after (.hashTbSearch str flag) x).credit = h.credit := by cases flag <;> rfl
      exact balanced_of_same credit rfl rfl rfl
  | @counted max room =>
      have limit : max = cfg.fileMax := allowed.2
      refine ⟨?_, fun _ => ?_⟩
      · show ((h.credit + 1 : ℕ) : ℤ) + s.store.written.card + s.store.fileN ≤
          h.credit + s.store.written.card + (s.store.fileN + 1)
        omega
      · show s.store.fileN + 1 ≤ cfg.fileMax
        omega
  | fileNDecrease =>
      have credited : 0 < h.credit := allowed.2 trivial
      refine ⟨?_, fun bound => ?_⟩
      · show ((h.credit - 1 : ℕ) : ℤ) + s.store.written.card + s.store.fileN ≤
          h.credit + s.store.written.card + (s.store.fileN - 1)
        omega
      · show s.store.fileN - 1 ≤ cfg.fileMax
        omega
  | quiet quiet same =>
      exact balanced_of_same (Hand.after_credit quiet) same.files same.next same.fileN
  | _ => exact balanced_of_same rfl rfl rfl rfl

end

/-! ## Runs -/

section
variable {W : Type} [DecidableEq W] [Fintype W] {cfg : Config} {w : W} {G : W → Hand}
  {s s' : Server W}

/-- Every file that holds pages is counted, and every file counted that does not is in the hands of a
worker. -/
structure Counted (cfg : Config) (G : W → Hand) (s : Server W) : Prop where
  account : (∑ v, (G v).credit : ℕ) + s.store.written.card ≤ s.store.fileN
  limit : s.store.fileN ≤ cfg.fileMax

omit [Fintype W] in
theorem credit_update (h : Hand) (w : W) :
    (fun v => (Function.update G w h v).credit) =
      Function.update (fun v => (G v).credit) w h.credit := by
  funext v
  exact Function.apply_update (fun _ h => h.credit) G w h v

theorem Counted.of_balanced {h : Hand} (counted : Counted cfg G s)
    (balanced : Balanced cfg (G w) h s s') : Counted cfg (Function.update G w h) s' := by
  have ⟨account, limit⟩ := counted
  refine ⟨?_, balanced.2 limit⟩
  have mine := Finset.add_sum_erase Finset.univ (fun v => (G v).credit) (Finset.mem_univ w)
  rw [credit_update, Finset.sum_update_of_mem (Finset.mem_univ w), Finset.sdiff_singleton_eq_erase]
  have step := balanced.1
  omega

theorem Counted.start (counted : Counted cfg G s) : Counted cfg (Function.update G w .empty) s :=
  counted.of_balanced ⟨by show ((0 : ℕ) : ℤ) + _ + _ ≤ _; omega, id⟩

omit [DecidableEq W] in
theorem Counted.initial (cfg : Config) : Counted cfg (fun _ : W => .empty) (Server.initial W cfg) := by
  refine ⟨?_, Int.natCast_nonneg _⟩
  show ((∑ _v : W, 0 : ℕ) : ℤ) + ((memorySetup cfg).written.card : ℤ) ≤ 0
  rw [Finset.sum_const_zero]
  exact Int.le_refl _

omit [DecidableEq W] [Fintype W] in
theorem InHand.expects_of {s : System Op Op.Resp W (Server W)} {o : Op} {next : o.Resp → Handler Unit}
    {x : o.Resp} {state : Server W} (inHand : InHand cfg G s.state) (action : s.threads w = .op o next)
    (counts : CountsFiles s w) (step : Server.exec cfg w o s.state = .ok (x, state)) :
    (G w).expects True o x := by
  cases o with
  | stackTop str =>
      intro _ held
      cases step
      exact counts.counted str next action ((inHand.owner _ _).mpr held)
  | free f =>
      intro _ busy
      obtain ⟨m, held⟩ := List.exists_mem_of_ne_nil _ busy
      have some := counts.evicted f next action ⟨m, (inHand.owner _ _).mpr held⟩
      obtain ⟨found, -⟩ := exec_free step
      rwa [Store.pagesAt_of found] at some
  | _ => trivial

theorem counted_preserved (cfg : Config) :
    Machine.Preserved (server W cfg) (ClientStarts cfg) CountsFiles (Server.initial W cfg)
      (conduct cfg True) (fun h => h.locks = [])
      (fun G s => InHand cfg G s.state ∧ Counted cfg G s.state) where
  init := ⟨_, ⟨InHand.initial cfg, Counted.initial cfg⟩, fun _ => rfl⟩
  start _ _ _ _ both _ done allowed :=
    ⟨.empty, ⟨both.1.start done, both.2.start⟩, wp_client allowed⟩
  exec _ _ _ _ next _ _ both _ action counts allowed step := by
    have expected := both.1.expects_of action counts step
    refine ⟨_, ⟨expected, rfl⟩, both.1.exec allowed step, ?_⟩
    apply both.2.of_balanced
    apply balanced_exec both.1.registered allowed _ step
    rintro f dim pages rfl
    exact counts.renewed f dim pages next action

/-- Under these conditions no more than `file_max` files hold pages. -/
theorem file_limit {s : System Op Op.Resp W (Server W)}
    (reachable : (server W cfg).Reachable (ClientStarts cfg) CountsFiles (Server.initial W cfg) s)
    (files : Finset FileId) (written : ∀ f ∈ files, s.state.store.pagesAt f ≠ 0) :
    files.card ≤ cfg.fileMax := by
  obtain ⟨G, ⟨inHand, counted⟩, -⟩ := (counted_preserved cfg).reachable reachable
  have sub : files ⊆ s.state.store.written :=
    fun f mem => inHand.registered.mem_written (written f mem)
  have few := Finset.card_le_card sub
  have ⟨account, limit⟩ := counted
  omega

end

/-! ## Two files written at a time -/

def oneFileConfig : Config :=
  ⟨16, 4, 1, 1, smallConfig.pageSize_pos, smallConfig.pageSize_lt, smallConfig.fileHashTbSize_pos,
    by decide, smallConfig.fileHashTbSize_pos, smallConfig.serverMemorySize_le⟩

/-- The first writer has counted its file and is about to push its name; the second one finds nothing to
evict and goes on. -/
def bothWrite : List ClientMove :=
  searches true [97] ++ creates true ++ searches true [98] ++ creates true ++
    requests oneFileConfig true (.fileWrite [97] 7 4 (ones 4)) 23 ++
    requests oneFileConfig false (.fileWrite [98] 7 4 (ones 4)) 23

theorem two_files_of_one : ∃ (s : System Op Op.Resp Bool (Server Bool)) (files : Finset FileId),
    (server Bool oneFileConfig).Reachable (ClientStarts oneFileConfig) (fun _ _ => True)
      (Server.initial Bool oneFileConfig) s ∧
    (∀ f ∈ files, s.state.store.pagesAt f ≠ 0) ∧ oneFileConfig.fileMax < files.card := by
  have starts : ∀ m ∈ bothWrite, m.startsFrom (ClientStarts oneFileConfig) := by
    simp only [bothWrite, List.forall_mem_append]
    exact ⟨⟨⟨⟨⟨searches_starts _ _, creates_starts _⟩, searches_starts _ _⟩, creates_starts _⟩,
      requests_starts _ _ _ _⟩, requests_starts _ _ _ _⟩
  have run : ∃ s, (server Bool oneFileConfig).Reachable (ClientStarts oneFileConfig)
      (fun _ _ => True) (Server.initial Bool oneFileConfig) s ∧
        (s.state.store.pagesAt 0 ≠ 0 && s.state.store.pagesAt 1 ≠ 0) = true :=
    Machine.Reachable.of_schedule (fun _ _ => true) (fun _ _ _ => trivial) starts
      (by decide +kernel)
  obtain ⟨s, reachable, final⟩ := run
  simp only [Bool.and_eq_true, decide_eq_true_eq] at final
  refine ⟨s, {0, 1}, reachable, fun f mem => ?_, by decide⟩
  rcases Finset.mem_insert.mp mem with rfl | mem
  · exact final.1
  · cases Finset.mem_singleton.mp mem
    exact final.2

def countsFilesTest (s : System Op Op.Resp Bool (Server Bool)) (w : Bool) : Bool :=
  match (s.threads w).next? with
  | some (.stackTop _) => s.state.owner .fileN ≠ some w || s.state.store.fstack.top ≠ 0
  | some (.free f) => s.state.store.pagesAt f ≠ 0
  | some (.store f (.pagesRenew _ _)) => s.state.store.pagesAt f ≠ 0
  | _ => true

theorem countsFiles_of_test (s : System Op Op.Resp Bool (Server Bool)) (w : Bool)
    (passes : countsFilesTest s w = true) : CountsFiles s w := by
  unfold countsFilesTest at passes
  refine ⟨fun str next action owned => ?_, fun f next action _ => ?_,
    fun f dim pages next action => ?_⟩
  · rw [action] at passes
    dsimp only [next?] at passes
    rw [owned] at passes
    simpa using passes
  · rw [action] at passes
    exact of_decide_eq_true passes
  · rw [action] at passes
    exact of_decide_eq_true passes

def writesThree : List ClientMove :=
  searches true [97] ++ creates true ++
    requests smallConfig true (.fileWrite [97] 7 4 (ones 4)) 30 ++
    searches false [98] ++ searches true [99] ++ creates false ++ creates true ++
    requests smallConfig false (.fileWrite [98] 7 4 (ones 4)) 30 ++
    requests smallConfig true (.fileWrite [99] 7 4 (ones 4)) 45

theorem file_limit_example : ∃ s : System Op Op.Resp Bool (Server Bool),
    s.state.store.written = {0, 2} ∧ s.state.store.written.card ≤ smallConfig.fileMax := by
  have starts : ∀ m ∈ writesThree, m.startsFrom (ClientStarts smallConfig) := by
    simp only [writesThree, List.forall_mem_append]
    exact ⟨⟨⟨⟨⟨⟨⟨⟨searches_starts _ _, creates_starts _⟩, requests_starts _ _ _ _⟩,
      searches_starts _ _⟩, searches_starts _ _⟩, creates_starts _⟩, creates_starts _⟩,
      requests_starts _ _ _ _⟩, requests_starts _ _ _ _⟩
  have run : ∃ s, (server Bool smallConfig).Reachable (ClientStarts smallConfig)
      CountsFiles (Server.initial Bool smallConfig) s ∧
        decide (s.state.store.written = {0, 2}) = true :=
    Machine.Reachable.of_schedule countsFilesTest countsFiles_of_test starts (by decide +kernel)
  obtain ⟨s, reachable, final⟩ := run
  exact ⟨s, of_decide_eq_true final,
    file_limit reachable s.state.store.written fun f mem => (mem_written.mp mem).2⟩

end FileServer
