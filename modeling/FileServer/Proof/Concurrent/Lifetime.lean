import FileServer.Proof.Concurrent.Holding

/-!
# Deleted records
-/

namespace FileServer
open Program

/-- It may look into `f` without being given a pointer to it again. -/
def Follows (f : FileId) (p : Handler Unit) : Prop :=
  p.Meets (fun o => o.record = some f) fun o x => o.gives x = some f

def Store.finds (cfg : Config) (σ : Store) (f : FileId) : Prop :=
  ∃ path, σ.pathAt f = some path ∧ σ.hashTbSearch cfg path .src = .ok (some f, σ)

/-- A record is taken out of the table only when the search for its path finds it, and no other worker
follows a pointer to it. -/
def DeletesAlone {W : Type} (cfg : Config) (s : System Op Op.Resp W (Server W)) (w : W) : Prop :=
  ∀ f next, s.threads w = .op (.hashTbSearch (.abspath f) .del) next →
    s.state.store.finds cfg f ∧ ∀ v, v ≠ w → ¬Follows f (s.threads v)

def TouchesDead {W : Type} (cfg : Config) (s : System Op Op.Resp W (Server W)) (w : W) : Prop :=
  ∃ o next f, s.threads w = .op o next ∧ (server W cfg).exec w o s.state = .fault (.deadFile f)

section
variable {W : Type} {cfg : Config} {w : W} {s s' : Server W} {f g : FileId} {h : Hand}
  {p : Handler Unit} {post : Unit → Hand → Prop}

/-! ## Operations -/

theorem Server.onFile_eq_fault {α : Type} {k : MemFile → Outcome Fault α} {e : Fault}
    (failed : s.onFile f k = .fault e) :
    s.store.files f = none ∧ e = .deadFile f ∨
      ∃ file, s.store.files f = some file ∧ k file = .fault e := by
  unfold onFile at failed
  split at failed
  · rename_i dead
    cases failed
    exact .inl ⟨dead, rfl⟩
  · rename_i file found
    exact .inr ⟨file, found, failed⟩

theorem readStr_fault {str : CStr} (failed : s.readStr str = .fault (.deadFile g)) :
    ∃ f, str.record = some f ∧ s.store.files f = none := by
  cases str with
  | copy path =>
      by_cases short : path.length < posixPathMax <;> simp [Server.readStr, short] at failed
  | abspath f =>
      rcases Server.onFile_eq_fault failed with ⟨dead, -⟩ | ⟨file, -, wrong⟩
      · exact ⟨f, rfl, dead⟩
      · cases wrong
  | _ => cases failed

/-- A freed record is met through a pointer, or in the table. -/
theorem exec_deadFile {o : Op} (failed : Server.exec cfg w o s = .fault (.deadFile f))
    (other : o ≠ .abort (.deadFile f)) :
    ∃ g, s.store.files g = none ∧ (o.record = some g ∨ g ∈ s.store.recorded) := by
  have onFile {α : Type} {g : FileId} {k : MemFile → Outcome Fault α}
      (h : s.onFile g k = .fault (.deadFile f)) (never : ∀ file, k file ≠ .fault (.deadFile f)) :
      s.store.files g = none := by
    rcases Server.onFile_eq_fault h with ⟨dead, -⟩ | ⟨file, -, wrong⟩
    · exact dead
    · exact (never file wrong).elim
  have search {name : Path} {flag : Flag}
      (h : s.store.hashTbSearch cfg name flag = .fault (.deadFile f)) :
      ∃ g, s.store.files g = none ∧ (o.record = some g ∨ g ∈ s.store.recorded) := by
    obtain ⟨g, mem, dead, -⟩ := Store.hashTbSearch_fault h
    exact ⟨g, dead, .inr mem⟩
  cases o with
  | lock m =>
      cases m with
      | file g =>
          refine ⟨g, onFile failed fun file wrong => ?_, .inl rfl⟩
          split at wrong <;> cases wrong
      | _ =>
          simp only [Server.exec, Server.onMutex] at failed
          split at failed <;> cases failed
  | unlock m =>
      cases m with
      | file g => exact ⟨g, onFile failed (by simp), .inl rfl⟩
      | _ => cases failed
  | abort e =>
      cases failed
      exact (other rfl).elim
  | load g => exact ⟨g, onFile failed (by simp), .inl rfl⟩
  | store g field => exact ⟨g, onFile failed (by simp), .inl rfl⟩
  | free g => exact ⟨g, onFile failed (by simp), .inl rfl⟩
  | hashTbAdd g => exact ⟨g, onFile failed (by simp), .inl rfl⟩
  | hashTbSearch str flag =>
      rcases Outcome.andThen_eq_fault.mp failed with read | ⟨name, -, rest⟩
      · obtain ⟨g, record, dead⟩ := readStr_fault read
        exact ⟨g, dead, .inl record⟩
      · cases name with
        | none => cases rest
        | some name =>
            rcases Outcome.andThen_eq_fault.mp rest with missed | ⟨_, -, wrong⟩
            · exact search missed
            · cases wrong
  | stackGetTop str =>
      rcases Outcome.andThen_eq_fault.mp failed with read | ⟨name, -, rest⟩
      · obtain ⟨g, record, dead⟩ := readStr_fault read
        exact ⟨g, dead, .inl record⟩
      · rcases Outcome.andThen_eq_fault.mp rest with missed | ⟨_, -, wrong⟩
        · rcases FileStack.getTop_fault missed with wrong | wrong | ⟨name, missed⟩
          · cases wrong
          · cases wrong
          · rcases Outcome.andThen_eq_fault.mp missed with missed | ⟨_, -, wrong⟩
            · exact search missed
            · cases wrong
        · cases wrong
  | stackPush str =>
      rcases Outcome.andThen_eq_fault.mp failed with read | ⟨name, -, rest⟩
      · obtain ⟨g, record, dead⟩ := readStr_fault read
        exact ⟨g, dead, .inl record⟩
      · cases name with
        | none => cases rest
        | some name =>
            rcases Outcome.andThen_eq_fault.mp rest with full | ⟨_, -, wrong⟩
            · unfold FileStack.push at full
              split at full <;> cases full
            · cases wrong
  | memcpy page offset input size =>
      rcases Outcome.andThen_eq_fault.mp failed with outside | ⟨_, -, wrong⟩
      · dsimp only [Server.memcpy] at outside
        split at outside
        · cases outside
        · split at outside <;> cases outside
      · cases wrong
  | pageTake | memRead page size | fileNIncrease max | stackCell i | stackDedup i =>
      simp only [Server.exec] at failed
      split at failed <;> cases failed
  | _ => cases failed

theorem exec_del {x : Option FileId} (finds : s.store.finds cfg f) (once : s.store.recorded.Nodup)
    (step : Server.exec cfg w (.hashTbSearch (.abspath f) .del) s = .ok (x, s')) :
    f ∈ s.store.recorded ∧ f ∉ s'.store.recorded := by
  obtain ⟨path, here, found⟩ := finds
  obtain ⟨name, read, rest⟩ := Outcome.andThen_eq_ok.mp step
  obtain ⟨file, alive, same⟩ := Server.onFile_eq_ok.mp read
  cases same
  obtain ⟨⟨result, σ⟩, searched, same⟩ := Outcome.andThen_eq_ok.mp rest
  cases same
  rw [Store.pathAt_of alive] at here
  cases here
  have first := Store.hashTbSearch_del_iff.mp ⟨_, searched⟩
  rw [found] at first
  cases first
  have perm := Store.hashTbSearch_del_recorded searched
  exact ⟨perm.mem_iff.mpr List.mem_cons_self, (List.nodup_cons.mp (perm.nodup_iff.mp once)).1⟩

/-! ## Pointers -/

theorem Hand.after_refs {o : Op} {x : o.Resp} (known : f ∈ (h.after o x).refs) :
    f ∈ h.refs ∨ o.gives x = some f := by
  cases o with
  | lock m => cases m <;> exact .inl known
  | newFile path => exact known.symm.imp_right fun same => congrArg some same.symm
  | stackGetTop path => exact known.symm.imp_right fun same => congrArg some same.symm
  | hashTbSearch path flag => cases flag <;> exact known
  | free g => exact .inl known.1
  | store g field => cases field <;> exact .inl known
  | _ => exact .inl known

theorem refs_of_follows (follows : Follows f p) (safe : wp (conduct cfg False) p post h) :
    f ∈ h.refs := by
  refine Meets.of_wp (P := fun h => f ∈ h.refs) ?_ ?_ follows safe
  · intro h o allowed looks
    exact allowed.1 f looks
  · intro h o x allowed onward
    exact ⟨h.after o x, ⟨expects_uncounted x, rfl⟩, fun known =>
      (Hand.after_refs known).resolve_right onward⟩

theorem follows_before {o : Op} {next : o.Resp → Handler Unit} {x : o.Resp}
    (follows : Follows f (next x)) : o.gives x = some f ∨ Follows f (.op o next) := by
  by_cases given : o.gives x = some f
  · exact .inl given
  · exact .inr (.inr ⟨x, given, follows⟩)

end

/-! ## Runs -/

/-- The records that the table or a worker may still lead to have not been freed, and the one that a
worker has taken out of the table is known to it alone. -/
structure Alive {W : Type} (G : W → Hand) (s : System Op Op.Resp W (Server W)) : Prop where
  once : s.state.store.recorded.Nodup
  recorded : ∀ f ∈ s.state.store.recorded, s.state.store.files f ≠ none
  followed : ∀ w f, Follows f (s.threads w) → s.state.store.files f ≠ none
  doomed : ∀ w f, (G w).doomed = some f → f < s.state.store.next ∧ f ∉ s.state.store.recorded ∧
    ∀ v, v ≠ w → ¬Follows f (s.threads v)
  made : ∀ w f, (G w).fresh = some f → (G w).doomed ≠ some f

namespace Hand

theorem after_doomed {h : Hand} {f : FileId} {o : Op} {x : o.Resp}
    (doomed : (h.after o x).doomed = some f) :
    h.doomed = some f ∧ (∀ str, o ≠ .hashTbSearch str .del) ∨
      ∃ str, o = .hashTbSearch str .del ∧ str.record = some f := by
  cases o with
  | lock m => cases m <;> exact .inl ⟨doomed, nofun⟩
  | hashTbSearch str flag =>
      cases flag with
      | src => exact .inl ⟨doomed, nofun⟩
      | del => exact .inr ⟨str, rfl, doomed⟩
  | free g => cases doomed
  | store g field => cases field <;> exact .inl ⟨doomed, nofun⟩
  | _ => exact .inl ⟨doomed, nofun⟩

end Hand

namespace Alive
variable {W : Type} [DecidableEq W] {cfg : Config} {w : W} {s : System Op Op.Resp W (Server W)}
  {G : W → Hand}

omit [DecidableEq W] in
theorem initial (cfg : Config) : Alive (fun _ : W => .empty) ⟨fun _ => .ret (), Server.initial W cfg⟩ := by
  have none : (Server.initial W cfg).store.recorded = [] := recorded_memorySetup cfg
  refine ⟨?_, ?_, fun _ _ => False.elim, nofun, nofun⟩
  · show (Server.initial W cfg).store.recorded.Nodup
    rw [none]
    exact List.nodup_nil
  · show ∀ f ∈ (Server.initial W cfg).store.recorded, _
    rw [none]
    exact nofun

theorem start {p : Handler Unit} (alive : Alive G s)
    (safe : wp (conduct cfg False) p (fun _ h => h.locks = []) .empty) :
    Alive (Function.update G w .empty) (s.set w p s.state) := by
  have unknown (f : FileId) : ¬Follows f p := fun follows => refs_of_follows follows safe
  have before {v : W} {f : FileId} (follows : Follows f ((s.set w p s.state).threads v)) :
      Follows f (s.threads v) := by
    by_cases same : v = w
    · subst same
      rw [System.set_threads_self] at follows
      exact (unknown f follows).elim
    · rwa [System.set_threads_of_ne _ _ _ same] at follows
  refine ⟨alive.once, alive.recorded, fun v f follows => alive.followed v f (before follows), ?_, ?_⟩
  · exact (Function.forall_update_iff G fun v h => ∀ f, h.doomed = some f → f < s.state.store.next ∧
      f ∉ s.state.store.recorded ∧ ∀ u, u ≠ v → ¬Follows f ((s.set w p s.state).threads u)).mpr
      ⟨fun _ doomed => (nomatch doomed), fun v _ f doomed => by
        obtain ⟨lt, out, others⟩ := alive.doomed v f doomed
        exact ⟨lt, out, fun u other follows => others u other (before follows)⟩⟩
  · exact (Function.forall_update_iff G fun _ h => ∀ f, h.fresh = some f → h.doomed ≠ some f).mpr
      ⟨fun _ fresh => (nomatch fresh), fun v _ => alive.made v⟩

variable {o : Op} {next : o.Resp → Handler Unit} {x : o.Resp} {state : Server W}

theorem follows_exec {v : W} {f : FileId} (action : s.threads w = .op o next)
    (step : Server.exec cfg w o s.state = .ok (x, state))
    (follows : Follows f ((s.set w (next x) state).threads v)) :
    Follows f (s.threads v) ∨ f ∈ s.state.store.recorded ∨
      f = s.state.store.next ∧ state.store.files f ≠ none := by
  by_cases same : v = w
  · subst same
    rw [System.set_threads_self] at follows
    rcases follows_before follows with gives | before
    · exact .inr ((exec_gives step gives).imp_right fun new => ⟨new.1, new.2.2⟩)
    · left
      rw [action]
      exact before
  · rw [System.set_threads_of_ne _ _ _ same] at follows
    exact .inl follows

theorem exec (alive : Alive G s) (inHand : InHand cfg G s.state)
    (safe : wp (conduct cfg False) (next x) (fun _ h => h.locks = []) ((G w).after o x))
    (action : s.threads w = .op o next) (alone : DeletesAlone cfg s w)
    (allowed : (G w).allows cfg False o) (step : Server.exec cfg w o s.state = .ok (x, state)) :
    Alive (Function.update G w ((G w).after o x)) (s.set w (next x) state) := by
  have later := exec_next step
  have mine {f : FileId} (looks : o.record = some f) : Follows f (s.threads w) := by
    rw [action]
    exact .inl looks
  have dead {f : FileId} (gone : state.store.files f = none) :
      s.state.store.files f = none ∨ o = .free f ∧ (G w).doomed = some f := by
    rcases exec_files step gone with before | rfl
    · exact .inl before
    · exact .inr ⟨rfl, allowed.2.1⟩
  have fresh {f : FileId} (added : o = .hashTbAdd f) : (G w).fresh = some f := by
    subst added
    exact allowed.2
  have deleted {str : CStr} {f : FileId} (del : o = .hashTbSearch str .del)
      (record : str.record = some f) : f ∈ s.state.store.recorded ∧ f ∉ state.store.recorded ∧
        ∀ v, v ≠ w → ¬Follows f (s.threads v) := by
    subst del
    cases str with
    | abspath g =>
        cases record
        obtain ⟨finds, others⟩ := alone f next action
        obtain ⟨mem, out⟩ := exec_del finds alive.once step
        exact ⟨mem, out, others⟩
    | _ => cases record
  have doomedBefore {v : W} {f : FileId}
      (doomed : (Function.update G w ((G w).after o x) v).doomed = some f) :
      (G v).doomed = some f ∨
        v = w ∧ ∃ str, o = .hashTbSearch str .del ∧ str.record = some f := by
    by_cases same : v = w
    · subst same
      rw [Function.update_self] at doomed
      exact (Hand.after_doomed doomed).imp And.left fun now => ⟨rfl, now⟩
    · rw [Function.update_of_ne same] at doomed
      exact .inl doomed
  refine ⟨?_, fun f mem gone => ?_, fun v f follows gone => ?_, fun v f doomed => ?_,
    fun v f new doomed => ?_⟩
  · by_cases added : ∃ g, o = .hashTbAdd g
    · obtain ⟨g, rfl⟩ := added
      obtain ⟨file, -, rfl⟩ := exec_hashTbAdd step
      exact (inHand.registered.recorded_add file g).nodup_iff.mpr
        (List.nodup_cons.mpr ⟨(inHand.fresh w g (fresh rfl)).2.1, alive.once⟩)
    · obtain ⟨l, perm, sublist⟩ := exec_recorded_sub (fun g same => added ⟨g, same⟩) step
      exact perm.nodup_iff.mp (alive.once.sublist sublist)
  · rcases exec_recorded inHand.registered step mem with before | rfl
    · rcases dead gone with wrong | ⟨-, doomed⟩
      · exact alive.recorded f before wrong
      · exact (alive.doomed w f doomed).2.1 before
    · obtain ⟨file, found, rfl⟩ := exec_hashTbAdd step
      exact Option.some_ne_none _ (found.symm.trans gone)
  · rcases follows_exec action step follows with before | recorded | ⟨-, new⟩
    · rcases dead gone with wrong | ⟨rfl, doomed⟩
      · exact alive.followed v f before wrong
      · by_cases same : v = w
        · subst same
          rw [System.set_threads_self] at follows
          have known := refs_of_follows follows safe
          exact inHand.again v (allowed.2.2 (known.2 rfl))
        · exact (alive.doomed w f doomed).2.2 v same before
    · rcases dead gone with wrong | ⟨-, doomed⟩
      · exact alive.recorded f recorded wrong
      · exact (alive.doomed w f doomed).2.1 recorded
    · exact new gone
  · rcases doomedBefore doomed with before | ⟨rfl, str, del, record⟩
    · obtain ⟨lt, out, others⟩ := alive.doomed v f before
      refine ⟨lt.trans_le later, fun mem => ?_, fun u other follows => ?_⟩
      · rcases exec_recorded inHand.registered step mem with recorded | rfl
        · exact out recorded
        · by_cases same : v = w
          · subst same
            exact alive.made v f (fresh rfl) before
          · exact others w (Ne.symm same) (mine rfl)
      · rcases follows_exec action step follows with was | recorded | ⟨rfl, -⟩
        · exact others u other was
        · exact out recorded
        · exact Nat.lt_irrefl _ lt
    · obtain ⟨mem, out, others⟩ := deleted del record
      refine ⟨(inHand.registered.known f mem).trans_le later, out, fun u other follows => ?_⟩
      rw [System.set_threads_of_ne _ _ _ other] at follows
      exact others u other follows
  · rcases InHand.exec_fresh new with ⟨before, -⟩ | ⟨rfl, ⟨path, rfl⟩, gives⟩
    · rcases doomedBefore doomed with was | ⟨rfl, str, del, record⟩
      · exact alive.made v f before was
      · exact (inHand.fresh v f before).2.1 (deleted del record).1
    · rw [Function.update_self] at doomed
      cases step
      cases gives
      exact Nat.lt_irrefl _ (alive.doomed v _ doomed).1

omit [DecidableEq W] in
theorem not_touchesDead (alive : Alive G s)
    (safe : ∀ w, wp (conduct cfg False) (s.threads w) (fun _ h => h.locks = []) (G w)) (w : W) :
    ¬TouchesDead cfg s w := by
  rintro ⟨o, next, f, action, failed⟩
  have other : o ≠ .abort (.deadFile f) := by
    rintro rfl
    have safe := safe w
    rw [action] at safe
    exact safe.1.2 f rfl
  obtain ⟨g, dead, looks | recorded⟩ := exec_deadFile failed other
  · apply alive.followed w g _ dead
    rw [action]
    exact .inl looks
  · exact alive.recorded g recorded dead

end Alive

theorem alive_preserved {W : Type} [DecidableEq W] (cfg : Config) :
    Machine.Preserved (server W cfg) (ClientStarts cfg) (DeletesAlone cfg) (Server.initial W cfg)
      (conduct cfg False) (fun h => h.locks = []) (fun G s => InHand cfg G s.state ∧ Alive G s) where
  init := ⟨_, ⟨InHand.initial cfg, Alive.initial cfg⟩, fun _ => rfl⟩
  start _ _ _ _ both _ done allowed :=
    ⟨.empty, ⟨both.1.start done, both.2.start (wp_client allowed)⟩, wp_client allowed⟩
  exec _ _ w _ _ x _ both safe action alone allowed step :=
    ⟨_, ⟨expects_uncounted x, rfl⟩, both.1.exec allowed step,
      both.2.exec both.1 (safe_after (safe w) action x) action alone allowed step⟩

/-- As long as records are deleted by workers that alone have pointers to them, no handler looks into
a freed record. -/
theorem no_dead_record {W : Type} [DecidableEq W] {cfg : Config}
    {s : System Op Op.Resp W (Server W)}
    (reachable : (server W cfg).Reachable (ClientStarts cfg) (DeletesAlone cfg)
      (Server.initial W cfg) s) (w : W) : ¬TouchesDead cfg s w := by
  obtain ⟨G, ⟨-, alive⟩, safe⟩ := (alive_preserved cfg).reachable reachable
  exact alive.not_touchesDead safe w

/-! ## A file deleted while it is about to be read -/

def written : List ClientMove :=
  searches true [97] ++ creates true ++ requests smallConfig true (.fileWrite [97] 7 4 (ones 4)) 30

theorem written_starts : ∀ m ∈ written, m.startsFrom (ClientStarts smallConfig) := by
  simp only [written, List.forall_mem_append]
  exact ⟨⟨searches_starts _ _, creates_starts _⟩, requests_starts _ _ _ _⟩

/-- One worker has found the file and not locked it yet when another one deletes it. -/
def readsDeleted : List ClientMove :=
  written ++ requests smallConfig true (.fileRead [97] 7) 3 ++ requests smallConfig false (.fileDelete [97] 7) 15

def touchesDeadTest (s : System Op Op.Resp Bool (Server Bool)) (w : Bool) : Bool :=
  match s.threads w with
  | .ret () => false
  | .op o _ => match Server.exec smallConfig w o s.state with
      | .fault (.deadFile _) => true
      | _ => false

theorem touchesDead_of_test {s : System Op Op.Resp Bool (Server Bool)} {w : Bool}
    (passes : touchesDeadTest s w = true) : TouchesDead smallConfig s w := by
  unfold touchesDeadTest at passes
  split at passes
  · cases passes
  · rename_i o next action
    split at passes
    · rename_i f failed
      exact ⟨o, next, f, action, failed⟩
    · cases passes

theorem dead_record : ∃ s : System Op Op.Resp Bool (Server Bool),
    (server Bool smallConfig).Reachable (ClientStarts smallConfig) (fun _ _ => True)
      (Server.initial Bool smallConfig) s ∧ TouchesDead smallConfig s true := by
  have starts : ∀ m ∈ readsDeleted, m.startsFrom (ClientStarts smallConfig) := by
    simp only [readsDeleted, List.forall_mem_append]
    exact ⟨⟨written_starts, requests_starts _ _ _ _⟩, requests_starts _ _ _ _⟩
  have run : ∃ s, (server Bool smallConfig).Reachable (ClientStarts smallConfig)
      (fun _ _ => True) (Server.initial Bool smallConfig) s ∧ touchesDeadTest s true = true :=
    Machine.Reachable.of_schedule (fun _ _ => true) (fun _ _ _ => trivial) starts
      (by decide +kernel)
  obtain ⟨s, reachable, final⟩ := run
  exact ⟨s, reachable, touchesDead_of_test final⟩

def deletesAloneTest (s : System Op Op.Resp Bool (Server Bool)) (w : Bool) : Bool :=
  match (s.threads w).next? with
  | some (.hashTbSearch (.abspath f) .del) => match s.state.store.files f, (s.threads !w).next? with
      | some file, none =>
          match s.state.store.hashTbSearch smallConfig file.abspath .src with
          | .ok (found, _) => found = some f
          | _ => false
      | _, _ => false
  | _ => true

theorem deletesAlone_of_test (s : System Op Op.Resp Bool (Server Bool)) (w : Bool)
    (passes : deletesAloneTest s w = true) : DeletesAlone smallConfig s w := by
  intro f next action
  unfold deletesAloneTest at passes
  rw [action] at passes
  dsimp only [next?] at passes
  split at passes
  · rename_i file found idle
    split at passes
    · rename_i result σ searched
      rw [of_decide_eq_true passes] at searched
      cases Store.hashTbSearch_src_store searched
      refine ⟨⟨_, Store.pathAt_of found, searched⟩, fun v other follows => ?_⟩
      have same : v = !w := by
        cases v <;> cases w <;> simp_all
      rw [same] at follows
      cases ended : s.threads !w with
      | ret u =>
          rw [ended] at follows
          exact follows
      | op o next =>
          rw [ended] at idle
          cases idle
    · cases passes
  · cases passes

theorem no_dead_record_example : ∃ s : System Op Op.Resp Bool (Server Bool),
    s.state.store.files 0 = none ∧ ∀ w, ¬TouchesDead smallConfig s w := by
  have starts : ∀ m ∈ written ++ requests smallConfig false (.fileDelete [97] 7) 16 ++
      requests smallConfig true (.fileRead [97] 7) 3 ++ searches false [98] ++ creates false,
      m.startsFrom (ClientStarts smallConfig) := by
    simp only [List.forall_mem_append]
    exact ⟨⟨⟨⟨written_starts, requests_starts _ _ _ _⟩, requests_starts _ _ _ _⟩, searches_starts _ _⟩,
      creates_starts _⟩
  have run : ∃ s, (server Bool smallConfig).Reachable (ClientStarts smallConfig)
      (DeletesAlone smallConfig) (Server.initial Bool smallConfig) s ∧
        decide (s.state.store.files 0 = none) = true :=
    Machine.Reachable.of_schedule deletesAloneTest deletesAlone_of_test starts (by decide +kernel)
  obtain ⟨s, reachable, final⟩ := run
  exact ⟨s, of_decide_eq_true final, no_dead_record reachable⟩

end FileServer
