import FileServer.Proof.Client.PathBuffers
import FileServer.Proof.Wire.Calls

/-!
# The client and the server in step

After any calls nothing is left in the queues, as long as `readNFiles` can save what it receives.
-/

namespace FileServer
open Program

/-- Whenever the client has made its calls, the server comes to rest, and rests with nothing in the queues
where it waits for a function code. -/
def InStep {W : Type} (cfg : Config) (w : W) (fd : Nat) (pid : Pid) (admits : (o : Local) → o.Resp → Prop)
    (calls : List Call) : Prop :=
  Duplex.Orderly (Api.next admits) (Serving.next cfg w fd (Startable cfg)) Connection.AtRest
    ⟨makeCalls pid calls, .waiting, [], []⟩

/-- The client's system may answer as it likes, but a destination file can always be opened and written. -/
def Saves : (o : Local) → o.Resp → Prop
  | .openDest _, opened => opened = true
  | .writeDest _, written => written = true
  | _, _ => True

section
variable {W : Type} {cfg : Config} {s : Server W} {f : FileId} {file : MemFile} {name nameSent : Path}

theorem short_of_lookup (short : name.length < posixPathMax) (searched : s.store.lookup cfg name = .ok (some f))
    (found : s.store.files f = some file) : file.abspath.length < posixPathMax := by
  obtain ⟨file', alive, same⟩ := Store.hashTbSearch_alive (Store.lookup_eq_ok.mp searched)
  cases Option.some.inj (found.symm.trans alive)
  have lengths := congrArg List.length (strncmpEq_iff.mp same)
  rw [List.length_take, List.length_take] at lengths
  omega

end

namespace Link
variable {W : Type} {L : Link W} {p : Api Unit} {s : Server W} {dirName : Option Path} {names : List Path}

/-! ## What the client does with a file -/

theorem goes_checkDir {k : Bool → Api Unit} {t : Serving W} {up down : List UInt8}
    (onward : ∀ isDir, L.Goes (k isDir) t up down) : L.Goes (Api.checkDir dirName >>= k) t up down := by
  cases dirName with
  | none => exact onward false
  | some dirName => exact goes_ask fun isDir _ => onward isDir

theorem goes_saveFile (saves : ∀ o x, L.admits o x → Saves o x) {k : Bool → Api Unit} {t : Serving W}
    {up down : List UInt8} {dirName fileName : Path} {contents : List UInt8} (onward : L.Goes (k true) t up down) :
    L.Goes (Api.saveFile dirName fileName contents >>= k) t up down := by
  unfold Api.saveFile
  rw [LawfulMonad.bind_assoc]
  refine goes_ask fun opened admitted => ?_
  have opens : opened = true := saves _ _ admitted
  rw [if_pos opens]
  refine goes_ask fun written admitted => ?_
  obtain rfl : written = true := saves _ _ admitted
  exact onward

theorem goes_entry_iff {k : Int → Api Unit} {fuel : Nat} {t : Serving W} {nameSent : Path}
    {contents down : List UInt8} (short : nameSent.length + 1 < 2 ^ 31) (size : contents.length < 2 ^ 64) :
    L.Goes (Api.readNFilesLoop dirName (fuel + 1) >>= k) t [] (intBytes (nameSent.length + 1) ++
        ((nameSent ++ [0]) ++ (sizeTBytes contents.length ++ (contents ++ down)))) ↔
      L.Goes (Api.checkDir dirName >>= fun isDir => (do
        let saved ← if isDir then
            Api.saveFile (dirName.getD []) ((nameSent ++ [0]).takeWhile (· ≠ 0)) contents
          else pure true
        if saved then Api.readNFilesLoop dirName fuel else return -1) >>= k) t [] down := by
  have announced : cInt (nameSent.length + 1 : Int) = nameSent.length + 1 := cInt_of_small (by omega) (by omega)
  have some : intBytes (nameSent.length + 1) ≠ [] := by
    intro empty
    have length := length_intBytes (nameSent.length + 1 : Int)
    rw [empty] at length
    cases length
  have given : Api.given (Option.some (nameSent.length + 1 : Int)) = pure (nameSent.length + 1 : Int) := rfl
  have positive : ¬(nameSent.length + 1 : Int) = 0 := by omega
  have natural : ¬(nameSent.length + 1 : Int) < 0 := by omega
  have all : (nameSent ++ [0]).length = (nameSent.length + 1 : Int).toNat := by
    rw [List.length_append, List.length_singleton]
    rfl
  have counted : Api.given (sizeTOf (sizeTBytes contents.length)) = pure contents.length := by
    rw [sizeTOf_sizeTBytes size]
    rfl
  rw [Api.readNFilesLoop, LawfulMonad.bind_assoc, goes_read_iff (length_intBytes _), if_neg some,
    intOf_intBytes, announced, given, pure_bind, if_neg positive]
  dsimp only
  rw [if_neg natural, LawfulMonad.bind_assoc, goes_read_iff all]
  simp only [LawfulMonad.bind_assoc]
  rw [goes_read_iff (length_sizeTBytes _), counted, pure_bind, goes_read_iff rfl]

theorem goes_entry (saves : ∀ o x, L.admits o x → Saves o x) {k : Int → Api Unit} {fuel : Nat} {t : Serving W}
    {nameSent : Path} {contents : List UInt8} (short : nameSent.length + 1 < 2 ^ 31)
    (size : contents.length < 2 ^ 64)
    (onward : L.Goes (Api.readNFilesLoop dirName fuel >>= k) t [] []) :
    L.Goes (Api.readNFilesLoop dirName (fuel + 1) >>= k) t [] (intBytes (nameSent.length + 1) ++
      ((nameSent ++ [0]) ++ (sizeTBytes contents.length ++ contents))) := by
  nth_rewrite 2 [← List.append_nil contents]
  rw [goes_entry_iff short size]
  refine goes_checkDir fun isDir => ?_
  cases isDir with
  | false => exact onward
  | true =>
      rw [if_pos rfl, LawfulMonad.bind_assoc]
      exact goes_saveFile saves onward

theorem blocked_readNFilesLoop {k : Int → Api Unit} {fuel : Nat} :
    Blocked (Api.readNFilesLoop dirName (fuel + 1) >>= k) [] :=
  ⟨4, _, rfl, Nat.zero_lt_succ 3⟩

theorem goes_noMore {k : Int → Api Unit} {fuel : Nat} (onward : ∀ r, L.Goes (k r) .waiting [] []) :
    L.Goes (Api.readNFilesLoop dirName (fuel + 1) >>= k) (.busy (handled (writeNB L.fd (.int 0))) s) [] [] := by
  have some : intBytes 0 ≠ [] := by decide
  refine goes_ended [.int 0] (run_writeNB L.fd _) rfl ?_
  show L.Goes _ _ [] (intBytes 0 ++ [])
  unfold Api.readNFilesLoop
  rw [LawfulMonad.bind_assoc]
  refine goes_read (length_intBytes 0) ?_
  rw [if_neg some]
  exact onward 0

theorem goes_unnamed {k : Int → Api Unit} {rest : Unit → Worker Unit} {f : FileId} {file : MemFile} {fuel : Nat}
    (idle : Idle L.cfg s) (found : s.store.files f = some file) (unnamed : fileShortenName file.abspath = none) :
    L.Goes (Api.readNFilesLoop dirName (fuel + 1) >>= k)
      (.busy (handled (sendNamed L.cfg L.fd (some f)) >>= rest) s) [] [] := by
  have loaded : (server W L.cfg).run L.worker (load f) (s.setOwner (.file f) (some L.worker)) = _ :=
    run_load found
  rw [sendNamed, handled_bind, LawfulMonad.bind_assoc]
  refine goes_run [] (idle.relock L.worker found).1 (List.append_nil _).symm ?_
  rw [handled_bind, LawfulMonad.bind_assoc]
  refine goes_quiet loaded ?_
  rw [unnamed]
  exact goes_abort blocked_readNFilesLoop

theorem goes_fileNReadLoop (saves : ∀ o x, L.admits o x → Saves o x) {k : Int → Api Unit} (n i fuel : Nat)
    (idle : Idle L.cfg s) (announced : ∀ f file, f ∈ s.store.recorded → s.store.files f = some file →
      (fileChunks L.cfg s.store.memPtr file).flatten.length = file.size)
    (onward : ∀ r, L.Goes (k r) .waiting [] []) :
    L.Goes (Api.readNFilesLoop dirName fuel >>= k)
      (.busy (handled (fileNReadLoop L.cfg L.fd names n i >>= fun _ => writeNB L.fd (.int 0))) s) [] [] := by
  induction n generalizing i fuel s with
  | zero =>
      cases fuel with
      | zero => exact goes_halt
      | succ fuel => exact goes_noMore onward
  | succ n ih =>
      cases fuel with
      | zero => exact goes_halt
      | succ fuel =>
          have top : (server W L.cfg).run L.worker (call (.stackTop .null)) s =
            .ok (s.store.fstack.top, s) := rfl
          rw [fileNReadLoop_succ, LawfulMonad.bind_assoc, handled_bind]
          refine goes_quiet top ?_
          by_cases inside : i < s.store.fstack.top
          · rw [if_pos inside]
            cases entry : names[i]? with
            | none => exact goes_abort blocked_readNFilesLoop
            | some name =>
                dsimp only
                rw [LawfulMonad.bind_assoc, handled_bind]
                by_cases long : posixPathMax ≤ name.length
                · refine goes_mute (mute_hashGetFile (.copy name) .src) blocked_readNFilesLoop fun x s' ran => ?_
                  cases (idle.run_hashGetCopy_long L.worker long).symm.trans ran
                have low := Nat.not_le.mp long
                rcases idle.lookup name with missing | ⟨f, file, searched, mem, found⟩
                · refine goes_quiet (idle.run_hashGetCopy L.worker low missing) ?_
                  exact ih (i + 1) (fuel + 1) idle announced
                · refine goes_quiet (idle.run_hashGetCopy L.worker low searched) ?_
                  rw [LawfulMonad.bind_assoc, handled_bind]
                  have named := idle.run_sendNamed L.worker L.fd mem found
                  cases shortened : fileShortenName file.abspath with
                  | none => exact goes_unnamed idle found shortened
                  | some nameSent =>
                      rw [shortened] at named
                      have sent (msgs : List Msg) : (s.sendAll L.fd msgs).sent =
                        s.sent ++ msgs.map fun msg => (L.fd, msg) := rfl
                      refine goes_run _ named (sent _) ?_
                      have part := (infix_fileShortenName shortened).length_le
                      have whole : file.abspath.length < 256 := short_of_lookup low searched found
                      have bounded := (idle.consistent.shaped f file mem found nofun).bounded
                      have limit := L.cfg.serverMemorySize_le
                      have length := announced f file mem found
                      rw [List.flatMap_cons, List.flatMap_cons, sentBytes_fileMessages, ← length]
                      refine goes_entry saves (by omega) (by omega) ?_
                      exact ih (i + 1) fuel ((Quiet.sendAll s L.fd _).idle idle) announced
          · rw [if_neg inside]
            exact goes_noMore onward

theorem goes_fileNRead (saves : ∀ o x, L.admits o x → Saves o x) {k : Int → Api Unit} {fuel : Nat}
    {fileNum : Int} {rand : Nat → Nat} (start : Startable L.cfg s) (onward : ∀ r, L.Goes (k r) .waiting [] []) :
    L.Goes (Api.readNFilesLoop dirName fuel >>= k)
      (.busy (handled (fileNRead L.cfg L.fd fileNum rand)) s) [] [] := by
  cases fuel with
  | zero => exact goes_halt
  | succ fuel =>
      have served := start.served
      have started := served.idle.run_fileNReadStart served.bounded L.worker fileNum rand rfl
      rw [fileNRead_split, handled_bind]
      refine goes_mute (mute_fileNReadStart fileNum rand) blocked_readNFilesLoop fun (names, num) s' ran => ?_
      cases started.symm.trans ran
      exact goes_fileNReadLoop saves _ _ _ ((Quiet.setStack s _).idle served.idle) start.announced onward

theorem goes_readNFiles (saves : ∀ o x, L.admits o x → Saves o x) {k : Int → Api Unit} {n : Int} {fuel : Nat}
    (onward : ∀ r, L.Goes (k r) .waiting [] []) :
    L.Goes (Api.readNFiles n dirName fuel >>= k) .waiting [] [] := by
  unfold Api.readNFiles
  rw [LawfulMonad.bind_assoc]
  refine goes_checkDir fun isDir => ?_
  by_cases wrong : dirName.isSome ∧ isDir = false
  · rw [if_pos wrong, LawfulMonad.bind_assoc]
    exact goes_ask fun _ _ => onward _
  · rw [if_neg wrong]
    have sends : (0 : Int) ≠ -1 := by decide
    simp only [Api.sendRequest, Api.sendMetadata, LawfulMonad.bind_assoc, pure_bind]
    rw [if_neg sends, LawfulMonad.bind_assoc]
    refine goes_sendToSocket (by rw [length_intBytes]; rfl) (by rw [length_intBytes]; decide) ?_
    refine goes_sendToSocket (by rw [length_intBytes]; rfl) (by rw [length_intBytes]; decide) ?_
    rw [List.nil_append, ← List.append_nil (intBytes n)]
    refine goes_called fun s fuel rand start => ?_
    exact goes_take (length_intBytes n) (goes_fileNRead saves start onward)

theorem goes_make (saves : ∀ o x, L.admits o x → Saves o x) (pid : Pid) (call : Call) {k : Unit → Api Unit}
    (onward : L.Goes (k ()) .waiting [] []) : L.Goes (call.make pid >>= k) .waiting [] [] := by
  unfold Call.make
  cases call with
  | openFile pathName flags =>
      rw [LawfulMonad.bind_assoc]
      exact goes_openFile fun _ => onward
  | closeFile pathName =>
      rw [LawfulMonad.bind_assoc]
      exact goes_closeFile fun _ => onward
  | writeFile pathName =>
      rw [LawfulMonad.bind_assoc]
      exact goes_writeFile fun _ => onward
  | appendToFile pathName buf =>
      rw [LawfulMonad.bind_assoc]
      exact goes_appendToFile (sizeT_lt _) fun _ => onward
  | readFile pathName =>
      rw [LawfulMonad.bind_assoc]
      exact goes_readFile fun _ => onward
  | readNFiles n dirName fuel =>
      rw [LawfulMonad.bind_assoc]
      exact goes_readNFiles saves fun _ => onward
  | removeFile fileName =>
      rw [LawfulMonad.bind_assoc]
      exact goes_removeFile fun _ => onward

theorem goes_makeCalls (saves : ∀ o x, L.admits o x → Saves o x) (pid : Pid) (calls : List Call) :
    L.Goes (makeCalls pid calls) .waiting [] [] := by
  induction calls with
  | nil =>
      have waits : ¬4 ≤ ([] : List UInt8).length := by decide
      exact Duplex.Orderly.halted id waits fun _ => ⟨rfl, rfl, rfl⟩
  | cons call calls ih => exact goes_make saves pid call ih

end Link

theorem calls_in_step {W : Type} (cfg : Config) (w : W) (fd : Nat) (pid : Pid) (calls : List Call) :
    InStep cfg w fd pid Saves calls := by
  let link : Link W := ⟨cfg, w, fd, Saves⟩
  exact link.goes_makeCalls (fun _ _ => id) pid calls

def oneSlashed : List Request :=
  [.fileInit [47, 97], .fileOpen [47, 97] 7, .fileWrite [47, 97] 7 1 [5]]

theorem startable_oneSlashed : Startable smallConfig (reached smallConfig 5 oneSlashed) :=
  startable_of_counted (served_reached (by simp [oneSlashed, Request.WellFormed])
    (by simp [oneSlashed, KeepsCount]) (by decide +kernel))

def exampleLink : Link Unit := ⟨smallConfig, (), 0, fun _ _ => True⟩

/-- The destination cannot be opened, and the end of the answer is left in the queue. -/
theorem calls_out_of_step :
    ¬InStep smallConfig () 0 7 (fun _ _ => True) [.readNFiles 0 (some [100]) 1] := by
  intro inStep
  have asked := inStep.after_left (.move ⟨true, trivial, rfl⟩)
  have sends := (asked.after_left .send).after_left .send
  have bytes : [] ++ (intBytes 1).take (cInt 4).toNat ++ (intBytes 0).take (cInt 4).toNat =
      intBytes 1 ++ intBytes 0 := by decide
  rw [bytes] at sends
  have called := sends.after_right (.recv (by decide))
  have chosen : exampleLink.Goes _ (.busy (handled (given (intOf (intBytes 1))) >>=
    Socket.reqFunArr smallConfig 0 0 fun _ => 0) (reached smallConfig 5 oneSlashed)) (intBytes 0) [] :=
    called.after_right (.move ⟨reached smallConfig 5 oneSlashed, 0, fun _ => 0, startable_oneSlashed, rfl⟩)
  rw [intOf_intBytes, Link.handled_given, pure_bind] at chosen
  have zero : cInt (ofLeBytes ((intBytes 0).take 4)) = 0 := by decide
  have counted : exampleLink.Goes _ (.busy (handled (fileNRead smallConfig 0 (cInt (ofLeBytes
    ((intBytes 0).take 4))) fun _ => 0)) (reached smallConfig 5 oneSlashed)) [] [] :=
    chosen.after_right (.recv (by decide))
  rw [zero] at counted
  have answers : ((server Unit smallConfig).run () (fileNRead smallConfig 0 0 fun _ => 0)
      (reached smallConfig 5 oneSlashed)).okAnd (fun (_, s') => s'.sent =
        (reached smallConfig 5 oneSlashed).sent ++ [(0, .int 2), (0, .bytes [97, 0]), (0, .sizeT 1),
          (0, .bytes [5]), (0, .int 0)]) = true := by
    decide +kernel
  obtain ⟨⟨a, s'⟩, ran, sent⟩ := Outcome.okAnd_iff.mp answers
  obtain ⟨out, sent', through⟩ := Link.goes_through (L := exampleLink) ran
  obtain rfl := List.append_cancel_left (sent'.symm.trans (of_decide_eq_true sent))
  rw [← bind_pure (handled _), through] at counted
  have bytes : [] ++ [(0, Msg.int 2), (0, Msg.bytes [97, 0]), (0, Msg.sizeT 1), (0, Msg.bytes [5]),
      (0, Msg.int 0)].flatMap (fun sent => sent.2.sentBytes) = intBytes (([97] : Path).length + 1) ++
        (([97] ++ [0]) ++ (sizeTBytes ([5] : List UInt8).length ++ ([5] ++ intBytes 0))) := by
    decide
  rw [bytes] at counted
  have finished : exampleLink.Goes ((Api.readNFilesLoop (some [100]) 1 >>= fun _ => pure ()) >>= fun _ =>
      makeCalls 7 []) .waiting [] (intBytes (([97] : Path).length + 1) ++
        (([97] ++ [0]) ++ (sizeTBytes ([5] : List UInt8).length ++ ([5] ++ intBytes 0)))) :=
    counted.after_right (.move rfl)
  rw [LawfulMonad.bind_assoc, Link.goes_entry_iff (by decide) (by decide)] at finished
  have failed := (finished.after_left (.move ⟨true, trivial, rfl⟩)).after_left (.move ⟨false, trivial, rfl⟩)
  have waits : ¬4 ≤ ([] : List UInt8).length := by decide
  have empty : intBytes 0 = [] := (failed.at_rest rfl waits).2.1
  exact absurd empty (by decide)

end FileServer
