import FileServer.Proof.Sequential.Quiet

/-!
# What the other requests change

The handlers that look a record up, and those that move pages or records.
-/

namespace FileServer
open Program

section
variable {W : Type} {strict : Prop} {cfg : Config} {w : W} {s s₁ s₂ s' : Server W} {r : Request}
  {f : FileId} {file : MemFile}

/-! ## Handlers that look a record up -/

theorem Idle.run_fileRead_accepted (idle : Idle cfg s) (w : W) (fd : Nat) {path : Path} {pid : Pid}
    (searched : s.store.lookup cfg path = .ok (some f)) (found : s.store.files f = some file)
    (accepted : openError file pid = 0) :
    (server W cfg).run w (fileRead cfg fd path pid) s =
      .ok ((), s.sendAll fd (.int 0 :: fileMessages cfg s.store.memPtr file)) := by
  have mem : f ∈ s.store.recorded := Store.hashTbSearch_mem (Store.lookup_eq_ok.mp searched)
  have sent := (idle.send fd (.int 0)).run_sendFile w fd mem found
  unfold fileRead
  rw [Machine.run_bind_of (idle.run_fileOpenCheck w pid searched found)]
  show (server W cfg).run w (do
    writeNB fd (.int (openError file pid))
    if openError file pid = 0 then sendFile cfg fd (← deref (some f))) s = _
  rw [accepted, Machine.run_bind_of (run_writeNB fd _), if_pos rfl]
  rw [Server.send_sendAll] at sent
  exact sent

theorem ends_fileRead (fd : Nat) (path : Path) (pid : Pid) (idle : Idle cfg s) :
    Ends strict cfg w (fileRead cfg fd path pid) (fun _ s' => Quiet s s') s := by
  rcases idle.lookup path with missing | ⟨f, file, searched, mem, found⟩
  · rw [ends_of_run (idle.run_fileRead_missing w fd pid missing)]
    exact .send s fd _
  · by_cases refused : openError file pid ≠ 0
    · rw [ends_of_run (idle.run_fileRead_refused w fd pid searched found refused)]
      exact .send s fd _
    · rw [ends_of_run (idle.run_fileRead_accepted w fd searched found (not_not.mp refused))]
      exact .refl s

theorem ends_fileSearch (fd : Nat) (path : Path) (idle : Idle cfg s) :
    Ends strict cfg w (fileSearch fd path) (fun _ s' => Quiet s s') s := by
  have searched : ∃ r, s.store.lookup cfg path = .ok r := by
    rcases idle.lookup path with missing | ⟨f, file, searched, -⟩
    · exact ⟨none, missing⟩
    · exact ⟨some f, searched⟩
  obtain ⟨r, searched⟩ := searched
  unfold fileSearch
  rw [ends_bind, ends_of_run (idle.run_hashGetFile w searched), ends_bind, ends_writeNB]
  exact .send s fd _

theorem Consistent.setClients (consistent : Consistent cfg none [] s.store)
    (mem : f ∈ s.store.recorded) (found : s.store.files f = some file) (clients : List Pid) :
    Consistent cfg none [] (s.setFile f (some { file with clientsOpened := clients })).store := by
  have shaped := consistent.shaped f file mem found nofun
  have busy : Consistent cfg (some f) []
      (s.setFile f (some { file with clientsOpened := clients })).store :=
    consistent.setFile mem found rfl (.refl _) nofun
  refine busy.settle fun file' found' => ?_
  cases Option.some.inj (found'.symm.trans (Function.update_self ..))
  exact ⟨shaped.filled, shaped.geometry, shaped.bounded⟩

theorem kept_of_ne {target : Option MemFile} {g : FileId} (ne : g ≠ f) :
    Kept s.store (s.setFile f target).store g :=
  ⟨Function.update_of_ne ne .., fun _ _ => rfl⟩

theorem ends_updateClients (update : List Pid → List Pid) (idle : Idle cfg s)
    (mem : f ∈ s.store.recorded) (found : s.store.files f = some file) :
    Ends strict cfg w (do
      lock (.file f)
      let file ← load f
      store f (.clientsOpened (update file.clientsOpened))
      unlock (.file f))
      (fun _ s' => Idle cfg s' ∧ s'.store = (s.setFile f (some { file with
        clientsOpened := update file.clientsOpened })).store) s := by
  have loaded : (server W cfg).run w (load f) (s.setOwner (.file f) (some w)) =
      .ok (file, s.setOwner (.file f) (some w)) := run_load found
  rw [ends_bind, ends_of_run (idle.relock w found).1, ends_bind, ends_of_run loaded, ends_bind,
    ends_store]
  intro file' same
  cases Option.some.inj (same.symm.trans found)
  rw [ends_unlock]
  intro _
  have release := (s.setFile f (some { file with
    clientsOpened := update file.clientsOpened })).setOwner_release (some w) (idle.unlocked (.file f))
  refine ⟨⟨fun m => ?_, idle.consistent.setClients mem found _⟩, rfl⟩
  exact (congrFun (congrArg Server.owner release) m).trans (idle.unlocked m)

theorem ends_fileOpen_updated (fd : Nat) (path : Path) (pid : Pid) (idle : Idle cfg s) :
    Ends strict cfg w (fileOpen fd path pid)
      (fun _ s' => Idle cfg s' ∧ Updated cfg (pid :: ·) path s s') s := by
  rcases idle.lookup path with missing | ⟨f, file, searched, mem, found⟩
  · rw [ends_of_run (idle.run_fileOpen_missing w fd pid missing)]
    exact ⟨idle.send fd _, .missing missing rfl⟩
  · unfold fileOpen
    rw [ends_bind, ends_of_run (idle.run_fileSearchSilent w searched)]
    show Ends strict cfg w (do
      writeNB fd (.int 0)
      let f ← deref (some f)
      lock (.file f)
      let file ← load f
      store f (.clientsOpened (pid :: file.clientsOpened))
      unlock (.file f)) _ s
    rw [ends_bind, ends_writeNB, ends_bind, ends_deref]
    intro _ same
    cases same
    refine wp_mono (ends_updateClients (pid :: ·) (idle.send fd _) mem found) ?_
    rintro _ s' ⟨idle', store⟩
    exact ⟨idle', .updated searched mem found store⟩

theorem ends_fileClose_updated (fd : Nat) (path : Path) (pid : Pid) (idle : Idle cfg s) :
    Ends strict cfg w (fileClose fd path pid)
      (fun _ s' => Idle cfg s' ∧ Updated cfg (clientPidDelete · pid) path s s') s := by
  rcases idle.lookup path with missing | ⟨f, file, searched, mem, found⟩
  · rw [ends_of_run (idle.run_fileClose_missing w fd pid missing)]
    exact ⟨idle.send fd _, .missing missing rfl⟩
  · unfold fileClose
    rw [ends_bind, ends_of_run (idle.run_fileSearchSilent w searched)]
    show Ends strict cfg w (do
      writeNB fd (.int 0)
      lock (.file f)
      let file ← load f
      store f (.clientsOpened (clientPidDelete file.clientsOpened pid))
      unlock (.file f)) _ s
    rw [ends_bind, ends_writeNB]
    refine wp_mono (ends_updateClients (clientPidDelete · pid) (idle.send fd _) mem found) ?_
    rintro _ s' ⟨idle', store⟩
    exact ⟨idle', .updated searched mem found store⟩

theorem Updated.effect {update : List Pid → List Pid} {path : Path} (idle : Idle cfg s')
    (updated : Updated cfg update path s s')
    (changed : ∀ f file, f ∈ s.store.recorded → s.store.files f = some file →
      s'.store.files f = some { file with clientsOpened := update file.clientsOpened } →
      Changed cfg s.store s'.store f r) : Effect cfg r s s' := by
  refine ⟨idle, fun g isIn => ?_⟩
  cases updated with
  | missing searched store =>
      rw [store] at isIn ⊢
      exact .inl ⟨isIn, rfl, fun _ _ => rfl⟩
  | @updated f file searched mem found store =>
      by_cases same : g = f
      · subst same
        exact .inr (changed g file mem found (by rw [store]; exact Function.update_self ..))
      · rw [store] at isIn ⊢
        exact .inl ⟨isIn, kept_of_ne same⟩

theorem ends_fileOpen (fd : Nat) (path : Path) (pid : Pid) (idle : Idle cfg s) :
    Ends strict cfg w (fileOpen fd path pid) (fun _ s' => Effect cfg (.fileOpen path pid) s s') s :=
  wp_mono (ends_fileOpen_updated fd path pid idle) fun _ _ ended =>
    ended.2.effect ended.1 fun _ _ mem found found' => .opened mem found found'

theorem ends_fileClose (fd : Nat) (path : Path) (pid : Pid) (idle : Idle cfg s) :
    Ends strict cfg w (fileClose fd path pid) (fun _ s' => Effect cfg (.fileClose path pid) s s') s :=
  wp_mono (ends_fileClose_updated fd path pid idle) fun _ _ ended =>
    ended.2.effect ended.1 fun _ _ mem found found' => .closed mem found found'

/-! ## Handlers that move pages -/

theorem ends_fileWrite (fuel fd : Nat) (path : Path) (pid : Pid) {fileSize : Nat}
    {data : List UInt8} (idle : Idle cfg s) (length : data.length = fileSize) :
    Ends False cfg w (fileWrite cfg fuel fd path pid fileSize data)
      (fun _ s' => Effect cfg (.fileWrite path pid fileSize data) s s') s := by
  rcases idle.lookup path with missing | ⟨f, file, searched, mem, found⟩
  · exact ends_of_fault (idle.run_fileWrite_missing w fuel fd pid fileSize data missing) nofun
  · by_cases refused : writeError cfg file pid fileSize ≠ 0
    · rw [ends_of_run
        (idle.run_fileWrite_refused w fuel fd pid fileSize data searched found refused)]
      exact (Quiet.send s fd _).effect idle _
    · have accepted := not_not.mp refused
      obtain ⟨fits, empty, -⟩ := writeError_eq_zero.mp accepted
      rw [ends_congr_run (idle.run_fileWrite_checked w fuel fd pid fileSize data searched found),
        if_neg refused]
      refine wp_mono (ends_writeAccepted fuel fd idle mem found empty fits length nofun) ?_
      rintro _ s' ⟨nonempty, -, pages, -, rewrote⟩
      refine ⟨rewrote.idle, fun g isIn => ?_⟩
      obtain ⟨before, kept⟩ := rewrote.others g isIn
      by_cases same : g = f
      · subst same
        exact .inr (.written mem found nonempty rewrote.found)
      · exact .inl ⟨before, kept same⟩

/-- A size that wraps around passes the check, and the request then dies for want of a buffer. -/
theorem ends_appendAccepted_large (fuel fd n : Nat) (data : List UInt8) (large : 2 ^ 63 ≤ n)
    {post : Unit → Server W → Prop} :
    Ends False cfg w (appendAccepted cfg fuel fd f file n data) post s := by
  unfold appendAccepted
  dsimp only
  rw [ends_bind]
  refine wp_mono (ends_anyhow _) fun _ s₁ _ => ?_
  unfold appendRest appendData
  rw [ends_bind, if_pos large]
  exact ends_bind.mpr (ends_abort fun _ => by simp)

theorem appendSize_fits {n : Nat} (shaped : file.Shaped cfg) (wellFormed : n < 2 ^ 64)
    (fits : sizeT (n + file.size) ≤ cfg.serverMemorySize) :
    file.size + n ≤ cfg.serverMemorySize ∨ 2 ^ 63 ≤ n := by
  have limit := cfg.serverMemorySize_le
  have bounded := shaped.bounded
  by_cases wraps : 2 ^ 63 ≤ n
  · exact .inr wraps
  · left
    rw [← Int.natCast_add, sizeT_of_small (by omega)] at fits
    omega

theorem ends_fileAppend (fuel fd : Nat) (path : Path) (pid : Pid) {n : Nat} {data : List UInt8}
    (idle : Idle cfg s) (length : data.length = n) (wellFormed : n < 2 ^ 64) :
    Ends False cfg w (fileAppend cfg fuel fd path pid n data)
      (fun _ s' => Effect cfg (.fileAppend path pid n data) s s') s := by
  rcases idle.lookup path with missing | ⟨f, file, searched, mem, found⟩
  · exact ends_of_fault (idle.run_fileAppend_missing w fuel fd pid n data missing) nofun
  · by_cases refused : appendError cfg file pid n ≠ 0
    · rw [ends_of_run (idle.run_fileAppend_refused w fuel fd pid n data searched found refused)]
      exact (Quiet.send s fd _).effect idle _
    · have accepted := not_not.mp refused
      obtain ⟨checked, opened⟩ := appendError_eq_zero.mp accepted
      rw [ends_congr_run (idle.run_fileAppend_checked w fuel fd pid n data searched found),
        if_neg refused]
      have shaped := idle.consistent.shaped f file mem found nofun
      rcases appendSize_fits shaped wellFormed checked with fits | large
      · refine wp_mono (ends_appendAccepted fuel fd idle mem found fits length nofun) ?_
        rintro _ s' ⟨hasPages, -, pages, total, rewrote⟩
        refine ⟨rewrote.idle, fun g isIn => ?_⟩
        obtain ⟨before, kept⟩ := rewrote.others g isIn
        by_cases same : g = f
        · subst same
          exact .inr (.appended mem searched found opened hasPages fits total rewrote.found)
        · exact .inl ⟨before, kept same⟩
      · exact ends_appendAccepted_large fuel fd n data large

theorem ends_fileDelete (fd : Nat) (path : Path) (pid : Pid) (idle : Idle cfg s) :
    Ends strict cfg w (fileDelete fd path pid)
      (fun _ s' => Effect cfg (.fileDelete path pid) s s') s := by
  rcases idle.lookup path with missing | ⟨f, file, searched, mem, found⟩
  · rw [ends_of_run (idle.run_fileDelete_missing w fd pid missing)]
    exact (Quiet.send s fd _).effect idle _
  · by_cases refused : openError file pid ≠ 0
    · rw [ends_of_run (idle.run_fileDelete_refused w fd pid searched found refused)]
      exact (Quiet.send s fd _).effect idle _
    · have accepted : openError file pid = 0 := not_not.mp refused
      unfold fileDelete
      rw [ends_bind, ends_of_run (idle.run_fileOpenCheck w pid searched found)]
      show Ends strict cfg w (do
        writeNB fd (.int (openError file pid))
        if openError file pid = 0 then
          let f ← deref (some f)
          lock (.file f)
          let _ ← hashGetFile (.abspath f) .del
          unlock (.file f)
          fileFree f) _ s
      rw [ends_bind, ends_writeNB, if_pos accepted, ends_bind, ends_deref]
      intro _ same
      cases same
      obtain ⟨t, named⟩ : ∃ t, s.send fd (.int (openError file pid)) = t := ⟨_, rfl⟩
      have quiet : Quiet s t := named ▸ Quiet.send s fd _
      have mem' : f ∈ t.store.recorded := by rw [← named]; exact mem
      have found' : t.store.files f = some file := by rw [← named]; exact found
      have searched' : t.store.lookup cfg path = .ok (some f) := by rw [← named]; exact searched
      have idle' := quiet.idle idle
      rw [named, ends_bind, ends_of_run (idle'.relock w found').1, ends_bind]
      refine ends_hashGetFile (fun null => ?_) fun abspath result σ read removed => ?_
      · obtain ⟨file', -, wrong⟩ := Server.onFile_eq_ok.mp null
        cases wrong
      obtain ⟨file', alive, same⟩ := Server.onFile_eq_ok.mp read
      cases same
      cases Option.some.inj (alive.symm.trans found')
      have fields := hashTbSearch_table removed
      have release : ((t.setOwner (.file f) (some w)).setStore σ).setOwner (.file f) none =
          t.setStore σ := Server.setOwner_release (t.setStore σ) (some w) (idle'.unlocked _)
      rw [ends_bind, ends_unlock, release]
      intro _
      have sameFile (file' : MemFile) (here : σ.files f = some file') : file' = file := by
        rw [fields] at here
        exact Option.some.inj (here.symm.trans found')
      have filled := (idle'.consistent.shaped f file mem' found' nofun).filled
      refine ends_fileFree (fun file' here => ?_) fun file' here => ?_
      · rw [sameFile file' here]
        exact Nat.le_of_eq filled.symm
      cases sameFile file' here
      have removes : Removes cfg t (((t.setStore σ).setFile f none).setStore
          { ((t.setStore σ).setFile f none).store with
            pages := (file.pages.take file.pagesN).reverse ++ (t.setStore σ).store.pages }) f
          file := by
        refine ⟨found', idle'.unlocked _, ⟨path, searched'⟩, ⟨result, ?_⟩, ?_⟩
        · rw [fields] at removed
          exact removed
        · rw [fields]
          rfl
      have shrinks := removes.shrinks idle'.consistent
      refine ⟨⟨fun m => ?_, removes.consistent idle'.consistent nofun⟩, fun g isIn => ?_⟩
      · rw [shrinks.owner]
        exact idle'.unlocked m
      · have before := shrinks.sub isIn
        have sameRecord := shrinks.files g isIn nofun
        refine .inl ⟨by rw [← named] at before; exact before, ?_, fun page _ => ?_⟩
        · rw [sameRecord, ← named]
          rfl
        · rw [shrinks.memPtr, ← named]
          rfl

def Store.newFile (σ : Store) (path : Path) : Store :=
  { σ with files := Function.update σ.files σ.next (some ⟨[], 0, path, 0, []⟩), next := σ.next + 1 }

def Store.create (cfg : Config) (σ : Store) (path : Path) : Store :=
  (σ.newFile path).hashTbAdd cfg σ.next ⟨[], 0, path, 0, []⟩

theorem Consistent.recorded_create {σ : Store} (consistent : Consistent cfg none [] σ)
    (path : Path) : (σ.create cfg path).recorded.Perm (σ.next :: σ.recorded) :=
  Store.hashTbAdd_recorded ⟨[], 0, path, 0, []⟩ σ.next (consistent.inside path)

theorem Consistent.ne_next {σ : Store} {g : FileId} (consistent : Consistent cfg none [] σ)
    (mem : g ∈ σ.recorded) : g ≠ σ.next := by
  obtain ⟨file, found⟩ := consistent.alive mem
  rintro rfl
  cases found.symm.trans (consistent.fresh _ (Nat.le_refl _))

theorem Consistent.create {σ : Store} (consistent : Consistent cfg none [] σ) (path : Path) :
    Consistent cfg none [] (σ.create cfg path) := by
  have perm := consistent.recorded_create path
  have inside := consistent.inside path
  have old {g : FileId} (mem : g ∈ σ.recorded) : (σ.create cfg path).files g = σ.files g :=
    Function.update_of_ne (consistent.ne_next mem) ..
  have new : (σ.create cfg path).files σ.next = some ⟨[], 0, path, 0, []⟩ :=
    Function.update_self ..
  refine { tableLen := ?_, keyed := fun i entry mem => ?_, nodup := ?_, fresh := fun g le => ?_
           ledger := ?_, pageN := consistent.pageN, buffers := consistent.buffers
           shaped := fun g file mem found _ => ?_ }
  · exact (List.length_set ..).trans consistent.tableLen
  · by_cases here : entry ∈ σ.table.getD i []
    · obtain ⟨file, found, key, position⟩ := consistent.keyed i entry here
      have isIn : entry.data ∈ σ.recorded := Store.mem_recorded.mpr ⟨i, entry, here, rfl⟩
      exact ⟨file, (old isIn).trans found, key, position⟩
    · have split : i = Store.hashTbPos cfg path ∧ entry = ⟨σ.next, hashKey path⟩ := by
        by_cases same : i = Store.hashTbPos cfg path
        · subst same
          change entry ∈ (σ.table.set _ _).getD _ _ at mem
          simp only [List.getD, List.getElem?_set_self inside, Option.getD_some,
            List.mem_cons] at mem
          rcases mem with new | old
          · exact ⟨rfl, new⟩
          · exact absurd old here
        · change entry ∈ (σ.table.set _ _).getD _ _ at mem
          simp only [List.getD, List.getElem?_set_ne (Ne.symm same)] at mem
          exact absurd mem here
      obtain ⟨rfl, rfl⟩ := split
      exact ⟨_, new, rfl, rfl⟩
  · refine perm.nodup_iff.mpr (List.nodup_cons.mpr ⟨fun mem => ?_, consistent.nodup⟩)
    exact consistent.ne_next mem rfl
  · have le' : σ.next + 1 ≤ g := le
    have ne : g ≠ σ.next := Nat.ne_of_gt le'
    exact (Function.update_of_ne ne ..).trans (consistent.fresh g (Nat.le_of_succ_le le'))
  · have owned : (σ.create cfg path).ownedPages.Perm σ.ownedPages := by
      have step := perm.flatMap_right (pagesOf (σ.create cfg path).files)
      rw [List.flatMap_cons, pagesOf_some new, List.nil_append] at step
      refine step.trans (List.Perm.of_eq (List.flatMap_congr fun g mem => ?_))
      exact pagesOf_congr (old mem)
    exact (owned.append_left _).trans consistent.ledger
  · rcases List.mem_cons.mp (perm.mem_iff.mp mem) with rfl | before
    · cases Option.some.inj (found.symm.trans new)
      exact ⟨rfl, .inl ⟨rfl, rfl⟩, Nat.zero_le _⟩
    · rw [old before] at found
      exact consistent.shaped g file before found nofun

theorem ends_fileInit_store (fd : Nat) (path : Path) :
    Ends False cfg w (fileInit fd path) (fun _ s' => s'.store = s.store.create cfg path ∧
      ∀ m, s'.owner m = none ∨ s'.owner m = s.owner m) s := by
  unfold fileInit
  rw [ends_bind]
  refine ends_call (by simp) fun f s₁ step => ?_
  cases step
  rw [ends_bind, ends_lock]
  intro _ free
  rw [ends_bind, ends_lock]
  intro live freeFile
  rw [ends_bind]
  refine ends_call (by simp) fun x s₂ step => ?_
  obtain ⟨file, found, step⟩ := Server.onFile_eq_ok.mp step
  cases Option.some.inj (found.symm.trans (Function.update_self ..))
  cases step
  rw [ends_bind, ends_unlock]
  intro _
  rw [ends_bind, ends_unlock]
  intro _
  rw [ends_writeNB]
  refine ⟨rfl, fun m => ?_⟩
  by_cases table : m = .hashTB
  · subst table
    simp [Server.setOwner, Server.send]
  · by_cases new : m = .file s.store.next
    · subst new
      simp [Server.setOwner, Server.send]
    · simp [Server.setOwner, Server.send, Server.setStore, table, new]

theorem ends_fileInit (fd : Nat) (path : Path) (idle : Idle cfg s) :
    Ends False cfg w (fileInit fd path) (fun _ s' => Effect cfg (.fileInit path) s s') s := by
  have consistent := idle.consistent
  refine wp_mono (ends_fileInit_store fd path) ?_
  rintro _ s' ⟨store, owner⟩
  refine ⟨⟨fun m => ?_, store ▸ consistent.create path⟩, fun g mem => ?_⟩
  · rcases owner m with free | same
    · exact free
    · exact same.trans (idle.unlocked m)
  · rw [store] at mem ⊢
    rcases List.mem_cons.mp ((consistent.recorded_create path).mem_iff.mp mem) with rfl | before
    · exact .inr (.created (Function.update_self ..))
    · refine .inl ⟨before, ?_, fun _ _ => rfl⟩
      exact Function.update_of_ne (consistent.ne_next before) ..

end

end FileServer
