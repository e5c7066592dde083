import FileServer.Proof.Sequential.Completed
import FileServer.Proof.Sequential.ReadMany
import FileServer.Proof.Sequential.Shuffle
import FileServer.Proof.Wire.Exchange

/-!
# Calls and the functions that serve them

After each call the connection is where it was before it.
-/

namespace FileServer
open Program

theorem sentBytes_fileMessages (cfg : Config) (memPtr : Nat → List UInt8) (file : MemFile) :
    (fileMessages cfg memPtr file).flatMap Msg.sentBytes =
      sizeTBytes file.size ++ (fileChunks cfg memPtr file).flatten := by
  rw [fileMessages, List.flatMap_cons, List.flatMap_map]
  exact congrArg (sizeTBytes file.size ++ ·) List.flatMap_id

/-! ## Parts that send nothing -/

theorem mute_of_allocates {α : Type} {p : Handler α} (allocates : p.All (·.allocates = true)) :
    p.All (·.mute = true) :=
  allocates.mono fun o allocates => by
    cases o with
    | writeNB fd msg => cases allocates
    | _ => rfl

theorem mute_addPageToMem (cfg : Config) (input : List UInt8) (f : FileId) (pageInd : Int) (size : Nat)
    (offset : Int) : (addPageToMem cfg input f pageInd size offset).All (·.mute = true) := by
  have stop {α : Type} (e : Fault) : (abort e : Handler α).All (·.mute = true) := ⟨rfl, fun x => x.elim⟩
  unfold addPageToMem
  refine .ite (all_pure _) ((mute_call rfl).bind fun file => ?_)
  cases file.pages[pageInd.toNat]? with
  | none => exact .ite ((stop _).bind fun _ => stop _) (stop _)
  | some index =>
      have copy : (call (.memcpy index offset input size) >>= fun _ => pure (0 : Int)).All
          (·.mute = true) := (mute_call rfl).bind fun _ => all_pure _
      exact .ite ((stop _).bind fun _ => copy) copy

theorem mute_writePages (cfg : Config) (f : FileId) (n toWrite : Nat) (input : List UInt8) :
    (writePages cfg f n toWrite input).All (·.mute = true) := by
  induction n generalizing toWrite input with
  | zero => trivial
  | succ n ih => exact (mute_addPageToMem ..).bind fun _ => ih ..

theorem mute_appendData (cfg : Config) (f : FileId) (oldPages size n : Nat) (avail overflow : Int)
    (data : List UInt8) : (appendData cfg f oldPages size n avail overflow data).All (·.mute = true) := by
  have copy {first : Nat} {offset : Int} {input later : List UInt8} : (do
      let _ ← addPageToMem cfg input f (oldPages - 1 : Int) first offset
      let pagesN := (← load f).pagesN
      let rest ← writePages cfg f (pagesN - 1 - oldPages) oldPages later
      if oldPages ≠ pagesN then
        let _ ← addPageToMem cfg rest f (max oldPages (pagesN - 1) : Nat) (sizeT overflow % cfg.pageSize) 0
      : Handler Unit).All (·.mute = true) :=
    (mute_addPageToMem ..).bind fun _ => (mute_call rfl).bind fun _ => (mute_writePages ..).bind fun _ =>
      .ite ((mute_addPageToMem ..).bind fun _ => all_pure _) (all_pure _)
  exact .ite (All.bind ⟨rfl, nofun⟩ fun _ => copy) copy

theorem mute_fileStackAdd (str : CStr) : (fileStackAdd str).All (·.mute = true) := by
  have push : (do
      call (.stackPush str)
      unlock .filestack : Handler Unit).All (·.mute = true) := (mute_call rfl).bind fun _ => mute_call rfl
  exact (mute_call rfl).bind fun _ => (mute_call rfl).bind fun _ => (mute_call rfl).bind fun _ =>
    .ite (mute_fileStackDefrag.bind fun _ => push) push

theorem openError_cases (file : MemFile) (pid : Pid) : openError file pid = 0 ∨ openError file pid = EPERM := by
  unfold openError
  split
  · exact .inl rfl
  · exact .inr rfl

theorem cInt_openError (file : MemFile) (pid : Pid) : cInt (openError file pid) = openError file pid := by
  rcases openError_cases file pid with opened | closed
  · rw [opened]
    decide
  · rw [closed]
    decide

theorem cInt_writeError (cfg : Config) (file : MemFile) (pid : Pid) (fileSize : Nat) :
    cInt (writeError cfg file pid fileSize) = writeError cfg file pid fileSize := by
  unfold writeError
  split
  · decide
  · split
    · decide
    · exact cInt_openError file pid

theorem cInt_appendError (cfg : Config) (file : MemFile) (pid : Pid) (appendSize : Nat) :
    cInt (appendError cfg file pid appendSize) = appendError cfg file pid appendSize := by
  unfold appendError
  split
  · decide
  · exact cInt_openError file pid

theorem Idle.run_withPid {W : Type} {cfg : Config} {s : Server W} {f : FileId} {file : MemFile}
    (idle : Idle cfg s) (w : W) (found : s.store.files f = some file) (update : Pid → List Pid → List Pid)
    (pid : Pid) : ∃ s', (server W cfg).run w (do
      let f ← deref (some f)
      lock (.file f)
      let file ← load f
      store f (.clientsOpened (update (← given (intOf (intBytes pid))) file.clientsOpened))
      unlock (.file f)) s = .ok ((), s') ∧ s'.sent = s.sent := by
  have ran := idle.run_updateClients w (update (cInt pid)) found
  rw [Machine.run_bind_of (run_deref_some f), intOf_intBytes]
  exact ⟨_, ran, rfl⟩

namespace Link
variable {W : Type} {L : Link W} {α : Type} {p : Api Unit} {s s' : Server W} {pid : Pid} {pathName : Path}

theorem goes_request {func : Int} {fields : List UInt8} {data : Api.FileData}
    (onward : ∀ s fuel rand, Startable L.cfg s →
      L.Goes p (.busy (Socket.reqFunArr L.cfg fuel L.fd rand (cInt func)) s)
      (pathBytes data.abspath ++ fields) []) :
    L.Goes p .waiting ([] ++ (intBytes func ++ pathBytes data.abspath) ++ fields) [] := by
  rw [List.nil_append, List.append_assoc]
  exact goes_called onward

/-! ## Reading -/

theorem goes_fileRead (start : Startable L.cfg s) {path : Path} (small : path.length + 1 < 2 ^ 31)
    (refused : ∀ err, cInt err ≠ 0 → L.Goes p .waiting [] (intBytes err))
    (accepted : ∀ contents : List UInt8, contents.length < 2 ^ 64 →
      L.Goes p .waiting [] (intBytes 0 ++ (sizeTBytes contents.length ++ contents))) :
    L.Goes p (.busy (Socket.fileRead L.cfg L.fd) s) (pathBytes path ++ intBytes pid) [] := by
  have idle := start.served.idle
  unfold Socket.fileRead
  rw [← List.append_nil (intBytes pid)]
  refine goes_openCheck idle small ?_ fun f file searched found => ?_
  · exact goes_ended [.int ENOENT] (run_writeNB L.fd _) rfl (refused ENOENT (by decide))
  · have mem := Store.hashTbSearch_mem (Store.lookup_eq_ok.mp searched)
    have bounded := (idle.consistent.shaped f file mem found nofun).bounded
    have limit := L.cfg.serverMemorySize_le
    have sent := (idle.send L.fd (.int 0)).run_sendFile L.worker L.fd mem found
    rcases openError_cases file (cInt pid) with accepts | refuses
    · have ran : (server W L.cfg).run L.worker (do
          writeNB L.fd (.int (openError file (cInt pid)))
          if openError file (cInt pid) = 0 then sendFile L.cfg L.fd (← deref (some f))) s =
            .ok ((), s.sendAll L.fd (.int 0 :: fileMessages L.cfg s.store.memPtr file)) := by
        rw [accepts, Machine.run_bind_of (run_writeNB L.fd _), if_pos rfl, Machine.run_bind_of (run_deref_some f),
          sent, Server.send_sendAll]
        rfl
      refine goes_ended _ ran rfl ?_
      rw [List.flatMap_cons, sentBytes_fileMessages, ← start.announced f file mem found]
      refine accepted _ ?_
      rw [start.announced f file mem found]
      omega
    · rw [refuses]
      exact goes_ended [.int EPERM] (run_writeNB L.fd _) rfl (refused EPERM (by decide))

theorem goes_readFile {k : Int × Option (List UInt8) → Api Unit}
    (onward : ∀ r, L.Goes (k r) .waiting [] []) : L.Goes (Api.readFile pid pathName >>= k) .waiting [] [] := by
  unfold Api.readFile
  rw [LawfulMonad.bind_assoc]
  refine goes_setFileData ?_ fun data sound => ?_
  · exact goes_ask fun _ _ => onward _
  · dsimp only
    rw [LawfulMonad.bind_assoc]
    refine goes_sendMetadata sound ?_
    rw [LawfulMonad.bind_assoc]
    refine goes_sendToSocket (by rw [length_intBytes]; rfl) (by rw [length_intBytes]; decide) ?_
    refine goes_request fun s fuel rand start => ?_
    have short : data.abspath.length + 1 < 256 := sound.short
    refine goes_fileRead start (by omega) (fun err nonzero => ?_) fun contents length => ?_
    · simp only [LawfulMonad.bind_assoc]
      rw [← List.append_nil (intBytes err)]
      refine goes_readInt ?_
      rw [if_neg nonzero, LawfulMonad.bind_assoc]
      exact goes_ask fun _ _ => onward _
    · simp only [LawfulMonad.bind_assoc]
      refine goes_readInt ?_
      rw [if_pos (by decide)]
      simp only [LawfulMonad.bind_assoc]
      refine goes_readSizeT length ?_
      rw [← List.append_nil contents]
      refine goes_read (by simp) (onward _)

/-! ## Removing -/

theorem goes_fileDelete (start : Startable L.cfg s) {path : Path} (small : path.length + 1 < 2 ^ 31)
    (onward : ∀ err, L.Goes p .waiting [] (intBytes err)) :
    L.Goes p (.busy (Socket.fileDelete L.fd) s) (pathBytes path ++ intBytes pid) [] := by
  have idle := start.served.idle
  unfold Socket.fileDelete
  rw [← List.append_nil (intBytes pid)]
  refine goes_openCheck idle small ?_ fun f file searched found => ?_
  · exact goes_ended [.int ENOENT] (run_writeNB L.fd _) rfl (onward ENOENT)
  · rcases openError_cases file (cInt pid) with accepts | refuses
    · rw [accepts]
      obtain ⟨s', ran, sent, -⟩ := (idle.send L.fd (.int 0)).run_remove L.worker searched found
      refine goes_ended [.int 0] (u := s') ?_ sent (onward 0)
      rw [Machine.run_bind_of (run_writeNB L.fd _)]
      exact ran
    · rw [refuses]
      exact goes_ended [.int EPERM] (run_writeNB L.fd _) rfl (onward EPERM)

theorem goes_removeFile {k : Int → Api Unit} (onward : ∀ r, L.Goes (k r) .waiting [] []) :
    L.Goes (Api.removeFile pid pathName >>= k) .waiting [] [] := by
  unfold Api.removeFile
  rw [LawfulMonad.bind_assoc]
  refine goes_setFileData ?_ fun data sound => ?_
  · exact goes_ask fun _ _ => onward _
  · have short : data.abspath.length + 1 < 256 := sound.short
    simp only [LawfulMonad.bind_assoc]
    refine goes_sendMetadata sound ?_
    refine goes_sendToSocket (by rw [length_intBytes]; rfl) (by rw [length_intBytes]; decide) ?_
    refine goes_request fun s fuel rand start => goes_fileDelete start (by omega) fun err => ?_
    rw [← List.append_nil (intBytes err)]
    refine goes_readInt ?_
    by_cases refused : cInt err ≠ 0
    · rw [if_pos refused, LawfulMonad.bind_assoc]
      exact goes_ask fun _ _ => onward _
    · rw [if_neg refused]
      exact onward _

/-! ## Opening and closing -/

/-- The client sends its pid unless the answer is -1, and `fileOpen` and `fileClose` read it whatever they
have answered. -/
theorem goes_pid {k : Int → Api Unit} {reqErr : Int} {q : List UInt8 → Handler Unit} (known : cInt reqErr ≠ -1)
    (ran : (server W L.cfg).run L.worker (q (intBytes pid)) (s.send L.fd (.int reqErr)) = .ok ((), s'))
    (sent : s'.sent = (s.send L.fd (.int reqErr)).sent) (onward : ∀ r, L.Goes (k r) .waiting [] []) :
    L.Goes (Api.readNB 4 >>= fun bytes => Api.given (intOf bytes) >>= fun r => Api.withPid pid r >>= k)
      (.busy (handled (writeNB L.fd (.int reqErr)) >>= fun _ => Socket.readNB 4 >>= fun clientPid =>
        handled (q clientPid)) s) [] [] := by
  have nothing : s'.sent = (s.send L.fd (.int reqErr)).sent ++ ([] : List Msg).map fun msg => (L.fd, msg) := by
    rw [sent, List.map_nil, List.append_nil]
  refine goes_run [.int reqErr] (run_writeNB L.fd _) rfl ?_
  refine goes_readInt ?_
  rw [Api.withPid, if_pos known, LawfulMonad.bind_assoc]
  refine goes_sendToSocket (by rw [length_intBytes]; rfl) (by rw [length_intBytes]; decide) ?_
  rw [List.nil_append, ← List.append_nil (intBytes pid)]
  refine goes_take (length_intBytes pid) (goes_ended [] ran nothing ?_)
  by_cases failed : 0 < cInt reqErr
  · rw [if_pos failed, LawfulMonad.bind_assoc]
    exact goes_ask fun _ _ => onward _
  · rw [if_neg failed]
    exact onward _

theorem goes_updateClients {func : Int} {update : Pid → List Pid → List Pid} {k : Int → Api Unit}
    (serves : ∀ fuel rand,
      Socket.reqFunArr L.cfg fuel L.fd rand (cInt func) = Socket.updateClients L.fd update)
    (onward : ∀ r, L.Goes (k r) .waiting [] []) :
    L.Goes (Api.sendRequest func (some pathName) >>= fun r => Api.withPid pid r >>= k) .waiting [] [] := by
  unfold Api.sendRequest
  rw [LawfulMonad.bind_assoc]
  refine goes_setFileData ?_ fun data sound => ?_
  · exact goes_ask fun _ _ => onward _
  · have short : data.abspath.length + 1 < 256 := sound.short
    simp only [LawfulMonad.bind_assoc]
    refine goes_sendMetadata sound ?_
    rw [← List.append_nil (intBytes func ++ _), ← List.append_assoc]
    refine goes_request fun s fuel rand start => ?_
    have idle := start.served.idle
    rw [serves]
    refine goes_search idle (by omega) (fun _ => ?_) fun f file searched found => ?_
    · exact goes_pid (by decide) rfl rfl onward
    · obtain ⟨s', ran, sent⟩ := (idle.send L.fd (.int 0)).run_withPid L.worker found update pid
      exact goes_pid (by decide) ran sent onward

theorem goes_sendRequest {func : Int} {k : Int → Api Unit} {q : Path → Handler Unit}
    (serves : ∀ fuel rand, Socket.reqFunArr L.cfg fuel L.fd rand (cInt func) = (do
      match ← Socket.readPath with
      | none => return ()
      | some filePath => handled (q filePath)))
    (answers : ∀ s path, Startable L.cfg s → ∃ s' v, (server W L.cfg).run L.worker (q path) s = .ok ((), s') ∧
      s'.sent = s.sent ++ [(L.fd, .int v)])
    (onward : ∀ r, L.Goes (k r) .waiting [] []) :
    L.Goes (Api.sendRequest func (some pathName) >>= k) .waiting [] [] := by
  unfold Api.sendRequest
  rw [LawfulMonad.bind_assoc]
  refine goes_setFileData (onward _) fun data sound => ?_
  have short : data.abspath.length + 1 < 256 := sound.short
  simp only [LawfulMonad.bind_assoc]
  refine goes_sendMetadata sound ?_
  rw [← List.append_nil (intBytes func ++ _), ← List.append_assoc]
  refine goes_request fun s fuel rand start => ?_
  obtain ⟨s', v, ran, sent⟩ := answers s (cut data.abspath) start
  rw [serves]
  refine goes_readPath (by omega) (goes_ended [.int v] ran sent ?_)
  refine goes_readInt (onward _)

theorem goes_openFile {flags : BitVec 32} {k : Int → Api Unit} (onward : ∀ r, L.Goes (k r) .waiting [] []) :
    L.Goes (Api.openFile pid pathName flags >>= k) .waiting [] [] := by
  have opens : L.Goes (Api.sendRequest 4 (some pathName) >>= fun r => Api.withPid pid r >>= k) .waiting [] [] :=
    goes_updateClients (fun _ _ => rfl) onward
  unfold Api.openFile
  by_cases create : flags &&& 1 ≠ 0
  · rw [if_pos create]
    simp only [LawfulMonad.bind_assoc]
    refine goes_sendRequest (q := fun path => do let _ ← fileSearch L.fd path) (fun _ _ => rfl)
      (fun s path start => ?_) fun response => ?_
    · have idle := start.served.idle
      obtain ⟨found, searched⟩ := idle.search path
      exact ⟨_, _, Machine.run_bind_of (idle.run_fileSearch L.worker L.fd searched) _, rfl⟩
    · by_cases missing : response = ENOENT
      · rw [if_pos missing]
        simp only [LawfulMonad.bind_assoc]
        refine goes_sendRequest (q := fileInit L.fd) (fun _ _ => rfl) (fun s path start => ?_) fun _ => opens
        exact ⟨_, 1, start.served.idle.run_fileInit L.worker L.fd path, rfl⟩
      · rw [if_neg missing, LawfulMonad.bind_assoc]
        exact goes_ask fun _ _ => onward _
  · rw [if_neg create, LawfulMonad.bind_assoc]
    exact opens

theorem goes_closeFile {k : Int → Api Unit} (onward : ∀ r, L.Goes (k r) .waiting [] []) :
    L.Goes (Api.closeFile pid pathName >>= k) .waiting [] [] := by
  have serves (fuel : Nat) (rand : Nat → Nat) : Socket.reqFunArr L.cfg fuel L.fd rand (cInt 5) =
    Socket.updateClients L.fd fun clientPid clients => clientPidDelete clients clientPid := rfl
  unfold Api.closeFile
  rw [LawfulMonad.bind_assoc]
  exact goes_updateClients serves onward

/-! ## Writing -/

theorem blocked_readInt {k : List UInt8 → Api Unit} : Blocked (Api.readNB 4 >>= k) [] :=
  ⟨4, k, rfl, Nat.zero_lt_succ 3⟩

theorem goes_answered {k : Int → Api Unit} {err : Int} (onward : ∀ r, L.Goes (k r) .waiting [] []) :
    L.Goes (Api.readNB 4 >>= fun bytes => Api.given (intOf bytes) >>= k)
      (.busy (handled (writeNB L.fd (.int err))) s) [] [] :=
  goes_ended [.int err] (run_writeNB L.fd _) rfl (goes_readInt (onward _))

theorem goes_writeData {k : Int → Api Unit} {fuel : Nat} {f : FileId} {fileSize : Nat} {up : List UInt8}
    (most : up.length ≤ fileSize) (onward : ∀ r, L.Goes (k r) .waiting [] []) :
    L.Goes (Api.readNB 4 >>= fun bytes => Api.given (intOf bytes) >>= k) (.busy (do
      handled do
        store f (.size fileSize)
        let _ ← fileNUpdate L.cfg.fileMax
        filePagesInitialize L.cfg fuel f
      let data ← Socket.readNB fileSize
      handled do
        let pagesN := (← load f).pagesN
        let rest ← writePages L.cfg f (pagesN - 1) 0 data
        let _ ← addPageToMem L.cfg rest f (pagesN - 1 : Nat) (lastPageSize L.cfg fileSize) 0
        fileStackAdd (.abspath f)
        unlock (.file f)
        writeNB L.fd (.int 0)) s) up [] := by
  have prepare : (do
      store f (.size fileSize)
      let _ ← fileNUpdate L.cfg.fileMax
      filePagesInitialize L.cfg fuel f : Handler Unit).All (·.mute = true) :=
    (mute_call rfl).bind fun _ => (mute_of_allocates (allocates_fileNUpdate _)).bind fun _ =>
      mute_of_allocates (allocates_filePagesInitialize ..)
  refine goes_mute prepare blocked_readInt fun _ s₁ _ => goes_receive blocked_readInt most fun _ => ?_
  refine goes_onward (mute_call rfl) blocked_readInt fun file s₂ => ?_
  refine goes_onward (mute_writePages ..) blocked_readInt fun rest s₃ => ?_
  refine goes_onward (mute_addPageToMem ..) blocked_readInt fun _ s₄ => ?_
  refine goes_onward (mute_fileStackAdd _) blocked_readInt fun _ s₅ => ?_
  exact goes_onward (mute_call rfl) blocked_readInt fun _ s₆ => goes_answered onward

theorem goes_appendData {k : Int → Api Unit} {fuel : Nat} {f : FileId} {file : MemFile} {newPageN : Int}
    {appendSize : Nat} {avail overflow : Int} {up : List UInt8} (most : up.length ≤ appendSize)
    (onward : ∀ r, L.Goes (k r) .waiting [] []) :
    L.Goes (Api.readNB 4 >>= fun bytes => Api.given (intOf bytes) >>= k) (.busy (do
      handled do
        filePagesRenew fuel f newPageN
        if 2 ^ 63 ≤ appendSize then abort .inputBounds
      let data ← Socket.readNB appendSize
      handled (appendRest L.cfg L.fd f file appendSize avail overflow data)) s) up [] := by
  have prepare : (do
      filePagesRenew fuel f newPageN
      if 2 ^ 63 ≤ appendSize then abort .inputBounds : Handler Unit).All (·.mute = true) :=
    (mute_of_allocates (allocates_filePagesRenew ..)).bind fun _ => .ite ⟨rfl, nofun⟩ (all_pure _)
  refine goes_mute prepare blocked_readInt fun _ s₁ _ => goes_receive blocked_readInt most fun _ => ?_
  refine goes_onward (mute_appendData ..) blocked_readInt fun _ s₂ => ?_
  refine goes_onward (mute_call rfl) blocked_readInt fun _ s₃ => ?_
  exact goes_onward (mute_call rfl) blocked_readInt fun _ s₄ => goes_answered onward

theorem goes_refused {f : FileId} {file : MemFile} {err : Int} (idle : Idle L.cfg s)
    (found : s.store.files f = some file) (onward : L.Goes p .waiting [] (intBytes err ++ [])) :
    L.Goes p (.busy (handled (unlock (.file f))) ((s.setOwner (.file f) (some L.worker)).send L.fd (.int err))) []
      ([] ++ [Msg.int err].flatMap Msg.sentBytes) := by
  have released := ((idle.send L.fd (.int err)).relock L.worker found).2
  refine goes_ended [] released (List.append_nil _).symm ?_
  rw [List.flatMap_nil, List.append_nil]
  exact onward

theorem goes_writeFile {k : Int → Api Unit} (onward : ∀ r, L.Goes (k r) .waiting [] []) :
    L.Goes (Api.writeFile pid pathName >>= k) .waiting [] [] := by
  unfold Api.writeFile
  rw [LawfulMonad.bind_assoc]
  refine goes_setFileData ?_ fun data sound => ?_
  · exact goes_ask fun _ _ => onward _
  have short : data.abspath.length + 1 < 256 := sound.short
  dsimp only
  by_cases empty : data.fileLen = 0
  · rw [if_pos empty, LawfulMonad.bind_assoc]
    exact goes_ask fun _ _ => onward _
  rw [if_neg empty]
  simp only [LawfulMonad.bind_assoc]
  refine goes_sendMetadata sound ?_
  refine goes_sendToSocket (by rw [length_intBytes]; rfl) (by rw [length_intBytes]; decide) ?_
  refine goes_sendToSocket (by rw [length_sizeTBytes]; rfl) (by rw [length_sizeTBytes]; decide) ?_
  rw [List.append_assoc _ (intBytes pid)]
  refine goes_request fun s fuel rand start => ?_
  have idle := start.served.idle
  show L.Goes _ (.busy (Socket.fileWrite L.cfg fuel L.fd) s) _ []
  unfold Socket.fileWrite
  rw [← List.append_nil (sizeTBytes _)]
  refine goes_openCheck idle (by omega) ?_ fun f file searched found => ?_
  · exact goes_take (length_sizeTBytes _) (goes_abort blocked_readInt)
  · refine goes_take (length_sizeTBytes _) ?_
    rw [sizeTOf_sizeTBytes sound.fileLen]
    obtain ⟨err, same⟩ : ∃ err, writeError L.cfg file (cInt pid) data.fileLen = err := ⟨_, rfl⟩
    have loaded : (server W L.cfg).run L.worker (load f) (s.setOwner (.file f) (some L.worker)) = _ :=
      run_load found
    refine goes_run [.int err] (a := (f, data.fileLen, err))
      (u := (s.setOwner (.file f) (some L.worker)).send L.fd (.int err)) ?_ rfl ?_
    · rw [Machine.run_bind_of (run_deref_some f), Machine.run_bind_of (idle.relock L.worker found).1,
        Machine.run_bind_of loaded, ← same]
      rfl
    dsimp only
    have plain : cInt err = err := same ▸ cInt_writeError L.cfg file (cInt pid) data.fileLen
    by_cases refused : err ≠ 0
    · rw [if_pos refused]
      refine goes_refused idle found (goes_readInt ?_)
      rw [plain, if_neg refused, LawfulMonad.bind_assoc]
      exact goes_ask fun _ _ => onward _
    · rw [if_neg refused]
      refine goes_readInt ?_
      rw [plain, if_pos (not_not.mp refused)]
      simp only [LawfulMonad.bind_assoc]
      refine goes_ask fun contents _ => goes_sendData fun sent most => ?_
      exact goes_writeData most onward

theorem goes_appendToFile {k : Int → Api Unit} {buf : List UInt8} {size : Nat} (bounded : size < 2 ^ 64)
    (onward : ∀ r, L.Goes (k r) .waiting [] []) :
    L.Goes (Api.appendToFile pid pathName buf size >>= k) .waiting [] [] := by
  unfold Api.appendToFile
  rw [LawfulMonad.bind_assoc]
  refine goes_setFileData ?_ fun data sound => ?_
  · exact goes_ask fun _ _ => onward _
  have short : data.abspath.length + 1 < 256 := sound.short
  simp only [LawfulMonad.bind_assoc]
  refine goes_sendMetadata sound ?_
  refine goes_sendToSocket (by rw [length_intBytes]; rfl) (by rw [length_intBytes]; decide) ?_
  refine goes_sendToSocket (by rw [length_sizeTBytes]; rfl) (by rw [length_sizeTBytes]; decide) ?_
  rw [List.append_assoc _ (intBytes pid)]
  refine goes_request fun s fuel rand start => ?_
  have idle := start.served.idle
  show L.Goes _ (.busy (Socket.fileAppend L.cfg fuel L.fd) s) _ []
  unfold Socket.fileAppend
  rw [← List.append_nil (sizeTBytes _)]
  refine goes_openCheck idle (by omega) ?_ fun f file searched found => ?_
  · exact goes_take (length_sizeTBytes _) (goes_abort blocked_readInt)
  refine goes_take (length_sizeTBytes _) ?_
  rw [sizeTOf_sizeTBytes bounded]
  obtain ⟨err, same⟩ : ∃ err, appendError L.cfg file (cInt pid) size = err := ⟨_, rfl⟩
  have loaded : (server W L.cfg).run L.worker (load f) (s.setOwner (.file f) (some L.worker)) = _ :=
    run_load found
  refine goes_run [.int err] (a := (f, file, size, err))
    (u := (s.setOwner (.file f) (some L.worker)).send L.fd (.int err)) ?_ rfl ?_
  · rw [Machine.run_bind_of (run_deref_some f), Machine.run_bind_of (idle.relock L.worker found).1,
      Machine.run_bind_of loaded, ← same]
    rfl
  dsimp only
  have plain : cInt err = err := same ▸ cInt_appendError L.cfg file (cInt pid) size
  by_cases refused : err ≠ 0
  · rw [if_pos refused]
    refine goes_refused idle found (goes_readInt ?_)
    rw [plain, if_neg refused, LawfulMonad.bind_assoc]
    exact goes_ask fun _ _ => onward _
  · rw [if_neg refused]
    refine goes_readInt ?_
    rw [plain, if_pos (not_not.mp refused)]
    simp only [LawfulMonad.bind_assoc]
    exact goes_sendData fun sent most => goes_appendData most onward

end Link

end FileServer
