import FileServer.Proof.Concurrent.Steps
import FileServer.Proof.Sequential.Requests

/-!
# Creating files concurrently
-/

namespace FileServer
open Program

def Store.pathAt (σ : Store) (f : FileId) : Option Path := (σ.files f).map MemFile.abspath

structure OnePerPath (σ : Store) : Prop where
  once : σ.recorded.Nodup
  one : ∀ f ∈ σ.recorded, ∀ g ∈ σ.recorded, ∀ path,
    σ.pathAt f = some path → σ.pathAt g = some path → f = g

/-- What always holds of the records: the table knows only identities given out before. -/
structure Registered (cfg : Config) (σ : Store) : Prop where
  tableLen : σ.table.length = cfg.fileHashTbSize
  known : ∀ f ∈ σ.recorded, f < σ.next
  fresh : ∀ f, σ.next ≤ f → σ.files f = none

/-- A record goes into the table only while no record of the same path is in it. -/
def CreatesNew {W : Type} (s : System Op Op.Resp W (Server W)) (w : W) : Prop :=
  ∀ f next, s.threads w = .op (.hashTbAdd f) next → ∀ path,
    s.state.store.pathAt f = some path → ∀ g ∈ s.state.store.recorded,
      s.state.store.pathAt g ≠ some path

section
variable {W : Type} {cfg : Config} {w : W} {s s' : Server W} {σ : Store} {f g : FileId}
  {file : MemFile}

@[simp] theorem MemFile.write_abspath (file : MemFile) (field : FieldWrite) :
    (file.write field).abspath = file.abspath := by
  cases field <;> rfl

/-! ## Identities -/

theorem recorded_memorySetup (cfg : Config) : (memorySetup cfg).recorded = [] := by
  simp [Store.recorded, memorySetup]

theorem Registered.initial (cfg : Config) : Registered cfg (memorySetup cfg) := by
  refine ⟨List.length_replicate, fun f mem => ?_, fun _ _ => rfl⟩
  rw [recorded_memorySetup] at mem
  cases mem

theorem Registered.lt_next (registered : Registered cfg σ) (found : σ.files f = some file) :
    f < σ.next := by
  by_contra outside
  have unknown := registered.fresh f (Nat.le_of_not_lt outside)
  rw [found] at unknown
  cases unknown

theorem Registered.inside (registered : Registered cfg σ) (path : Path) :
    Store.hashTbPos cfg path < σ.table.length := by
  rw [registered.tableLen]
  exact Nat.mod_lt _ cfg.fileHashTbSize_pos

theorem Registered.recorded_add (registered : Registered cfg σ) (file : MemFile) (f : FileId) :
    (σ.hashTbAdd cfg f file).recorded.Perm (f :: σ.recorded) :=
  Store.hashTbAdd_recorded file f (registered.inside _)

theorem Registered.exec {o : Op} {x : o.Resp} (registered : Registered cfg s.store)
    (step : Server.exec cfg w o s = .ok (x, s')) : Registered cfg s'.store := by
  have ⟨tableLen, known, fresh⟩ := registered
  have unborn {f g : FileId} {file : MemFile} (found : s.store.files f = some file)
      (above : s.store.next ≤ g) (file' : Option MemFile) :
      Function.update s.store.files f file' g = none := by
    have other : g ≠ f := by
      rintro rfl
      exact Nat.not_lt.mpr above (registered.lt_next found)
    exact (Function.update_of_ne other ..).trans (fresh g above)
  cases performed step with
  | store found => exact ⟨tableLen, known, fun g above => unborn found above _⟩
  | newFile =>
      refine ⟨tableLen, fun g mem => Nat.lt_succ_of_lt (known g mem), fun g above => ?_⟩
      have other : g ≠ s.store.next := Nat.ne_of_gt above
      exact (Function.update_of_ne other ..).trans (fresh g (Nat.le_of_succ_le above))
  | free found => exact ⟨tableLen, known, fun g above => unborn found above _⟩
  | @hashTbAdd f file found =>
      refine ⟨(List.length_set ..).trans tableLen, fun g mem => ?_, fresh⟩
      rcases List.mem_cons.mp ((registered.recorded_add file f).mem_iff.mp mem) with rfl | before
      · exact registered.lt_next found
      · exact known g before
  | hashTbSearch _ length fewer =>
      exact ⟨length.trans tableLen, fun g mem => known g (fewer.subset mem), fresh⟩
  | quiet _ same =>
      refine ⟨by rw [same.table]; exact tableLen, fun g mem => ?_, fun g above => ?_⟩
      · rw [same.recorded] at mem
        rw [same.next]
        exact known g mem
      · rw [same.next] at above
        rw [same.files]
        exact fresh g above
  | _ => exact ⟨tableLen, known, fresh⟩

/-! ## Paths -/

theorem Store.pathAt_of (found : σ.files f = some file) : σ.pathAt f = some file.abspath := by
  rw [Store.pathAt, found]
  rfl

theorem OnePerPath.sub {σ' : Store} (one : OnePerPath σ)
    (fewer : σ'.recorded.Subperm σ.recorded)
    (same : ∀ f ∈ σ'.recorded, ∀ path, σ'.pathAt f = some path → σ.pathAt f = some path) :
    OnePerPath σ' := by
  refine ⟨?_, fun f mem g mem' path here there => ?_⟩
  · obtain ⟨l, perm, sublist⟩ := fewer
    exact perm.nodup_iff.mp (one.once.sublist sublist)
  · exact one.one f (fewer.subset mem) g (fewer.subset mem') path (same f mem path here)
      (same g mem' path there)

theorem OnePerPath.add (one : OnePerPath σ) (registered : Registered cfg σ)
    (found : σ.files f = some file)
    (new : ∀ g ∈ σ.recorded, σ.pathAt g ≠ some file.abspath) :
    OnePerPath (σ.hashTbAdd cfg f file) := by
  have perm := registered.recorded_add file f
  have path := Store.pathAt_of found
  have newOld {g : FileId} {path' : Path} (mem : g ∈ σ.recorded) (here : σ.pathAt f = some path')
      (there : σ.pathAt g = some path') : False := by
    rw [path] at here
    cases here
    exact new g mem there
  refine ⟨?_, fun g mem h mem' path' here there => ?_⟩
  · exact perm.nodup_iff.mpr (List.nodup_cons.mpr ⟨fun mem => new f mem path, one.once⟩)
  · rcases List.mem_cons.mp (perm.mem_iff.mp mem) with rfl | before
    · rcases List.mem_cons.mp (perm.mem_iff.mp mem') with rfl | before'
      · rfl
      · exact (newOld before' here there).elim
    · rcases List.mem_cons.mp (perm.mem_iff.mp mem') with rfl | before'
      · exact (newOld before there here).elim
      · exact one.one g before h before' path' here there

theorem OnePerPath.exec {o : Op} {x : o.Resp} (one : OnePerPath s.store)
    (registered : Registered cfg s.store)
    (new : ∀ f, o = .hashTbAdd f → ∀ path, s.store.pathAt f = some path →
      ∀ g ∈ s.store.recorded, s.store.pathAt g ≠ some path)
    (step : Server.exec cfg w o s = .ok (x, s')) : OnePerPath s'.store := by
  have setFile {f : FileId} (file : Option MemFile)
      (same : ∀ path, file.map MemFile.abspath = some path → s.store.pathAt f = some path) :
      OnePerPath (s.setFile f file).store := by
    refine one.sub (List.Subperm.refl _) fun g mem path there => ?_
    change (Function.update s.store.files f file g).map _ = _ at there
    by_cases this : g = f
    · subst this
      rw [Function.update_self] at there
      exact same path there
    · rwa [Function.update_of_ne this] at there
  cases performed step with
  | @store f field file found =>
      apply setFile
      intro path there
      rw [Store.pathAt_of found, ← there]
      exact (congrArg some (file.write_abspath field)).symm
  | newFile =>
      refine one.sub (List.Subperm.refl _) fun g mem path there => ?_
      have other : g ≠ s.store.next := Nat.ne_of_lt (registered.known g mem)
      change (Function.update s.store.files s.store.next _ g).map _ = _ at there
      rwa [Function.update_of_ne other] at there
  | free found => exact setFile none nofun
  | @hashTbAdd f file found =>
      exact one.add registered found (new f rfl file.abspath (Store.pathAt_of found))
  | hashTbSearch _ _ fewer => exact one.sub fewer fun g mem path there => there
  | quiet _ same =>
      refine one.sub (List.Perm.of_eq same.recorded).subperm fun g mem path there => ?_
      rwa [Store.pathAt, same.files] at there
  | _ => exact ⟨one.once, one.one⟩

theorem OnePerPath.initial (cfg : Config) : OnePerPath (memorySetup cfg) := by
  refine ⟨?_, fun f mem => ?_⟩
  · rw [recorded_memorySetup]
    exact List.nodup_nil
  · rw [recorded_memorySetup] at mem
    cases mem

theorem not_onePerPath_add (registered : Registered cfg s.store) {path : Path}
    (here : s.store.pathAt f = some path) (mem : g ∈ s.store.recorded)
    (there : s.store.pathAt g = some path)
    (step : Server.exec cfg w (.hashTbAdd f) s = .ok ((), s')) : ¬OnePerPath s'.store := by
  intro one
  obtain ⟨file, found, rfl⟩ := exec_hashTbAdd step
  have perm := registered.recorded_add file f
  have same := one.one f (perm.mem_iff.mpr List.mem_cons_self) g
    (perm.mem_iff.mpr (List.mem_cons_of_mem f mem)) path here there
  subst same
  exact (List.nodup_cons.mp (perm.nodup_iff.mp one.once)).1 mem

end

/-! ## Runs -/

section
variable {W : Type} [DecidableEq W] {cfg : Config} {s : System Op Op.Resp W (Server W)}

/-- Requests served one after the other are a run of the workers. -/
theorem Served.reachable {meets : Store → Request → Prop} {state : Server W}
    (served : Served W cfg meets state) :
    (server W cfg).Reachable (ClientStarts cfg) (fun _ _ => True) (Server.initial W cfg)
      ⟨fun _ => .ret (), state⟩ := by
  induction served with
  | initial => exact .initial
  | @request s s' w fuel fd r before wellFormed met completed ih =>
      have started := ih.step (.start (w := w) rfl (.request w fuel fd r))
      have ended := started.run (System.set_threads_self ..) completed
      have idle : (fun _ => .ret () : W → Handler Unit) =
          Function.update (Function.update (fun _ => .ret ()) w (handle cfg fuel fd r)) w (.ret ()) := by
        rw [Function.update_idem, Function.update_eq_self]
      rw [idle]
      exact ended

theorem registered_reachable {starts : W → Handler Unit → Prop}
    {admissible : System Op Op.Resp W (Server W) → W → Prop}
    (reachable : (server W cfg).Reachable starts admissible (Server.initial W cfg) s) :
    Registered cfg s.state.store :=
  reachable.invariant (I := fun s => Registered cfg s.store) (Registered.initial cfg)
    fun _ _ _ _ _ _ registered _ _ step => registered.exec step

/-- As long as records are created only under new paths, the table holds at most one for each path; the
first creation under a path that is in the table breaks this. -/
theorem one_record_per_path :
    ((server W cfg).Reachable (ClientStarts cfg) CreatesNew (Server.initial W cfg) s →
      OnePerPath s.state.store) ∧
    ((server W cfg).Reachable (ClientStarts cfg) (fun _ _ => True) (Server.initial W cfg) s →
      ∀ (w : W) (o : Op) (next : o.Resp → Handler Unit) (x : o.Resp) (state : Server W),
        s.threads w = .op o next → (server W cfg).exec w o s.state = .ok (x, state) →
        ¬CreatesNew s w → ¬OnePerPath state.store) := by
  constructor
  · intro reachable
    refine (reachable.invariant (I := fun s => Registered cfg s.store ∧ OnePerPath s.store)
      ⟨Registered.initial cfg, OnePerPath.initial cfg⟩ ?_).2
    intro s w o next x state both action new step
    refine ⟨both.1.exec step, both.2.exec both.1 ?_ step⟩
    rintro f rfl
    exact new f next action
  · intro reachable w o next x state action step old
    unfold CreatesNew at old
    push Not at old
    obtain ⟨f, next', action', path, here, g, mem, there⟩ := old
    cases action.symm.trans action'
    exact not_onePerPath_add (w := w) (registered_reachable reachable) here mem there step

end

/-! ## Two clients that create the same file -/

abbrev ClientMove := Machine.Move Op Op.Resp Bool

def searches (w : Bool) (path : Path) : List ClientMove :=
  .start w (openFile true 0 path 7) :: List.replicate 4 (.exec w)

def creates (w : Bool) : List ClientMove := List.replicate 15 (.exec w)

theorem searches_starts {cfg : Config} (w : Bool) (path : Path) :
    ∀ m ∈ searches w path, m.startsFrom (ClientStarts cfg) := by
  simp [searches, Machine.Move.startsFrom, ClientStarts.openFile]

theorem creates_starts {cfg : Config} (w : Bool) :
    ∀ m ∈ creates w, m.startsFrom (ClientStarts cfg) := by
  simp [creates, Machine.Move.startsFrom]

def requests (cfg : Config) (w : Bool) (r : Request) (n : Nat) : List ClientMove :=
  .start w (handle cfg 5 0 r) :: List.replicate n (.exec w)

theorem requests_starts (cfg : Config) (w : Bool) (r : Request) (n : Nat) :
    ∀ m ∈ requests cfg w r n, m.startsFrom (ClientStarts cfg) := by
  simp [requests, Machine.Move.startsFrom, ClientStarts.request]

def ones (n : Nat) : List UInt8 := List.replicate n 1

/-- Both clients are told that there is no such file before either creates it. -/
def createdTwice : List ClientMove :=
  searches true [97] ++ searches false [97] ++ creates true ++ creates false

def recordedTwice (s : System Op Op.Resp Bool (Server Bool)) : Bool :=
  s.state.store.recorded = [1, 0] && s.state.store.pathAt 0 = some [97] &&
    s.state.store.pathAt 1 = some [97]

theorem two_records_per_path : ∃ s : System Op Op.Resp Bool (Server Bool),
    (server Bool smallConfig).Reachable (ClientStarts smallConfig) (fun _ _ => True)
      (Server.initial Bool smallConfig) s ∧
    s.state.store.recorded = [1, 0] ∧ s.state.store.pathAt 0 = some [97] ∧
    s.state.store.pathAt 1 = some [97] ∧ ¬OnePerPath s.state.store := by
  have starts : ∀ m ∈ createdTwice, m.startsFrom (ClientStarts smallConfig) := by
    simp only [createdTwice, List.forall_mem_append]
    exact ⟨⟨⟨searches_starts _ _, searches_starts _ _⟩, creates_starts _⟩, creates_starts _⟩
  have run : ∃ s, (server Bool smallConfig).Reachable (ClientStarts smallConfig)
      (fun _ _ => True) (Server.initial Bool smallConfig) s ∧ recordedTwice s = true :=
    Machine.Reachable.of_schedule (fun _ _ => true) (fun _ _ _ => trivial) starts
      (by decide +kernel)
  obtain ⟨s, reachable, final⟩ := run
  simp only [recordedTwice, Bool.and_eq_true, decide_eq_true_eq] at final
  obtain ⟨⟨recorded, first⟩, second⟩ := final
  refine ⟨s, reachable, recorded, first, second, fun one => ?_⟩
  have same := one.one 0 (by simp [recorded]) 1 (by simp [recorded]) [97] first second
  cases same

def createsNewTest (s : System Op Op.Resp Bool (Server Bool)) (w : Bool) : Bool :=
  match (s.threads w).next? with
  | some (.hashTbAdd f) => s.state.store.recorded.all fun g =>
      s.state.store.pathAt g ≠ s.state.store.pathAt f
  | _ => true

theorem createsNew_of_test (s : System Op Op.Resp Bool (Server Bool)) (w : Bool)
    (passes : createsNewTest s w = true) : CreatesNew s w := by
  intro f next action path here g mem
  unfold createsNewTest at passes
  rw [action] at passes
  have unlike := List.all_eq_true.mp passes g mem
  rw [here] at unlike
  exact of_decide_eq_true unlike

def createdOnce : List ClientMove :=
  searches true [97] ++ creates true ++ searches true [97] ++ searches true [98] ++
    searches false [99] ++ creates true ++ creates false

theorem one_record_per_path_example : ∃ s : System Op Op.Resp Bool (Server Bool),
    s.state.store.recorded.length = 3 ∧ OnePerPath s.state.store := by
  have starts : ∀ m ∈ createdOnce, m.startsFrom (ClientStarts smallConfig) := by
    simp only [createdOnce, List.forall_mem_append]
    exact ⟨⟨⟨⟨⟨⟨searches_starts _ _, creates_starts _⟩, searches_starts _ _⟩, searches_starts _ _⟩,
      searches_starts _ _⟩, creates_starts _⟩, creates_starts _⟩
  have run : ∃ s, (server Bool smallConfig).Reachable (ClientStarts smallConfig)
      CreatesNew (Server.initial Bool smallConfig) s ∧
        (decide (s.state.store.recorded.length = 3)) = true :=
    Machine.Reachable.of_schedule createsNewTest createsNew_of_test starts (by decide +kernel)
  obtain ⟨s, reachable, final⟩ := run
  exact ⟨s, of_decide_eq_true final, one_record_per_path.1 reachable⟩

end FileServer
