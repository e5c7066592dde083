import FileServer.Model.Connection
import FileServer.Proof.Concurrent.Steps
import FileServer.Proof.Sequential.Admission
import FileServer.Proof.Sequential.Paging
import FileServer.Proof.Wire.Fields

/-!
# Rules for a connection

How a client and its server go on from one exchange to the next, whatever the order of their steps.
-/

namespace FileServer
open Program

/-- Completed requests have led to the state, and `sendFile` would send as many bytes as it announces. -/
structure Startable {W : Type} (cfg : Config) (s : Server W) : Prop where
  served : Served W cfg (fun _ _ => True) s
  announced : ∀ f file, f ∈ s.store.recorded → s.store.files f = some file →
    (fileChunks cfg s.store.memPtr file).flatten.length = file.size

/-- As long as appends keep the number of pages that a file takes, `sendFile` sends what it announces. -/
theorem startable_of_counted {W : Type} {cfg : Config} {s : Server W} (served : Served W cfg (KeepsCount cfg) s) :
    Startable cfg s := by
  refine ⟨served.anyhow, fun f file mem found => ?_⟩
  have consistent := served.idle.consistent
  exact length_fileChunks consistent.buffers (consistent.shaped f file mem found nofun).filled
    (served.counted f mem file found)

structure Link (W : Type) where
  cfg : Config
  worker : W
  fd : Nat
  admits : (o : Local) → o.Resp → Prop

structure Api.FileData.Sound (data : Api.FileData) : Prop where
  short : data.abspath.length + 1 < posixPathMax
  pathLen : data.pathLen = data.abspath.length + 1
  fileLen : data.fileLen < 2 ^ 64

namespace Link
variable {W : Type} {L : Link W} {α : Type} {p : Api Unit} {t : Serving W} {s s' : Server W}
  {up down : List UInt8}

/-- Once the client has made its calls, all that was sent has been read or will be. -/
def Goes (L : Link W) (p : Api Unit) (t : Serving W) (up down : List UInt8) : Prop :=
  Duplex.Orderly (Api.next L.admits) (Serving.next L.cfg L.worker L.fd (Startable L.cfg)) Connection.AtRest
    ⟨p, t, up, down⟩

/-! ## The client -/

theorem goes_send {k : Unit → Api Unit} {data : List UInt8} (onward : L.Goes (k ()) t (up ++ data) down) :
    L.Goes (Api.send data >>= k) t up down :=
  Duplex.Orderly.left_send rfl onward

theorem goes_read_iff {k : List UInt8 → Api Unit} {field : List UInt8} {n : Nat} (length : field.length = n) :
    L.Goes (Api.readNB n >>= k) t up (field ++ down) ↔ L.Goes (k field) t up down := by
  refine ⟨fun goes => ?_, Duplex.Orderly.left_recv rfl length⟩
  have enough : n ≤ (field ++ down).length := by simp [length]
  have read := goes.after_left (.recv enough)
  rw [List.take_left' length, List.drop_left' length] at read
  exact read

theorem goes_read {k : List UInt8 → Api Unit} {field : List UInt8} {n : Nat} (length : field.length = n)
    (onward : L.Goes (k field) t up down) : L.Goes (Api.readNB n >>= k) t up (field ++ down) :=
  (goes_read_iff length).mpr onward

theorem goes_ask {o : Local} {k : o.Resp → Api Unit}
    (onward : ∀ x, L.admits o x → L.Goes (k x) t up down) : L.Goes (Api.ask o >>= k) t up down := by
  refine Duplex.Orderly.left_move rfl ?_
  rintro _ ⟨x, admitted, rfl⟩
  exact onward x admitted

theorem goes_halt {k : α → Api Unit} : L.Goes (Api.halt >>= k) t up down :=
  Duplex.Orderly.stuck rfl fun _ => id

/-! ## The server -/

theorem goes_finish (onward : L.Goes p .waiting up down) : L.Goes p (.busy (.ret ()) s) up down :=
  Duplex.Orderly.right_move rfl ⟨_, rfl⟩ fun _ same => same ▸ onward

theorem goes_take {k : List UInt8 → Worker Unit} {field : List UInt8} {n : Nat} (length : field.length = n)
    (onward : L.Goes p (.busy (k field) s) up down) :
    L.Goes p (.busy (Socket.readNB n >>= k) s) (field ++ up) down :=
  Duplex.Orderly.right_recv rfl length onward

theorem next_mute {o : Op} (mute : o.mute = true) (next : o.Resp → Worker Unit) :
    Serving.next L.cfg L.worker L.fd (Startable L.cfg) (.busy (.op (.server o) next) s) =
      .move fun t => ∃ x s', s.exec L.cfg L.worker o = .ok (x, s') ∧ t = .busy (next x) s' := by
  cases o with
  | writeNB fd msg => cases mute
  | _ => rfl

theorem exec_sent {o : Op} {x : o.Resp} (mute : o.mute = true)
    (step : s.exec L.cfg L.worker o = .ok (x, s')) : s'.sent = s.sent := by
  cases o with
  | lock m =>
      obtain ⟨-, -, rfl⟩ := exec_lock step
      rfl
  | unlock m =>
      cases exec_unlock step
      rfl
  | abort e | spin => cases step
  | writeNB fd msg => cases mute
  | load f | store f field | free f | hashTbAdd f =>
      obtain ⟨file, -, same⟩ := Server.onFile_eq_ok.mp step
      cases same
      rfl
  | hashTbSearch path flag =>
      obtain ⟨-, table, rfl, -⟩ := exec_hashTbSearch step
      rfl
  | pageTake | fileNIncrease max | memRead page size | stackCell i | stackDedup i =>
      simp only [Server.exec] at step
      split at step <;> cases step <;> rfl
  | memcpy page offset input size =>
      obtain ⟨t, copied, same⟩ := Outcome.andThen_eq_ok.mp step
      cases same
      simp only [Server.memcpy] at copied
      split at copied
      · cases copied
      · split at copied <;> cases copied
        rfl
  | stackGetTop str =>
      obtain ⟨path, read, step⟩ := Outcome.andThen_eq_ok.mp step
      obtain ⟨⟨f, stack⟩, chosen, same⟩ := Outcome.andThen_eq_ok.mp step
      cases same
      rfl
  | stackPush name =>
      obtain ⟨path, read, step⟩ := Outcome.andThen_eq_ok.mp step
      cases path with
      | none => cases step
      | some path =>
          obtain ⟨stack, pushed, same⟩ := Outcome.andThen_eq_ok.mp step
          cases same
          rfl
  | _ =>
      cases step
      rfl

def Blocked (p : Api Unit) (down : List UInt8) : Prop :=
  ∃ n next, p = .op (.readNB n) next ∧ down.length < n

theorem goes_mute {q : Handler α} {k : α → Worker Unit} (mute : q.All (·.mute = true)) (blocked : Blocked p down)
    (onward : ∀ a s', (server W L.cfg).run L.worker q s = .ok (a, s') → L.Goes p (.busy (k a) s') up down) :
    L.Goes p (.busy (handled q >>= k) s) up down := by
  induction q generalizing s with
  | ret a => exact onward a s rfl
  | op o next ih =>
      have action := next_mute (L := L) (s := s) mute.1 fun x => handled (next x) >>= k
      by_cases steps : ∃ x s', s.exec L.cfg L.worker o = .ok (x, s')
      · obtain ⟨x, s₁, step⟩ := steps
        refine Duplex.Orderly.right_move action ⟨_, x, s₁, step, rfl⟩ ?_
        rintro _ ⟨x', s', step', rfl⟩
        refine ih x' (mute.2 x') fun a s'' ran => onward a s'' ?_
        rw [Machine.run_op]
        show (s.exec L.cfg L.worker o).andThen _ = _
        rw [step']
        exact ran
      · obtain ⟨n, after, rfl, short⟩ := blocked
        refine Duplex.Orderly.halted (Nat.not_le.mpr short) ?_ nofun
        show ¬(Serving.next L.cfg L.worker L.fd (Startable L.cfg)
          (.busy (.op (.server o) fun x => handled (next x) >>= k) s)).Ready up
        rw [action]
        rintro ⟨_, x, s', step, -⟩
        exact steps ⟨x, s', step⟩

theorem goes_abort {e : Fault} {next : Empty → Worker Unit} (blocked : Blocked p down) :
    L.Goes p (.busy (.op (.server (.abort e)) next) s) up down := by
  obtain ⟨n, after, rfl, short⟩ := blocked
  refine Duplex.Orderly.halted (Nat.not_le.mpr short) ?_ nofun
  rintro ⟨_, x, -⟩
  exact x.elim

theorem goes_receive {k : List UInt8 → Worker Unit} {n : Nat} (blocked : Blocked p down) (most : up.length ≤ n)
    (onward : up.length = n → L.Goes p (.busy (k up) s) [] down) :
    L.Goes p (.busy (Socket.readNB n >>= k) s) up down := by
  by_cases whole : up.length = n
  · have received := goes_take (L := L) whole (onward whole)
    rw [List.append_nil] at received
    exact received
  · obtain ⟨m, after, rfl, short⟩ := blocked
    refine Duplex.Orderly.halted (Nat.not_le.mpr short) ?_ nofun
    exact Nat.not_le.mpr (Nat.lt_of_le_of_ne most whole)

theorem handled_bind {β : Type} (q : Handler α) (k : α → Handler β) :
    handled (q >>= k) = handled q >>= fun a => handled (k a) := by
  induction q with
  | ret a => rfl
  | op o next ih => exact congrArg (Program.op (SocketOp.server o)) (funext ih)

theorem goes_onward {β : Type} {q : Handler β} {k : β → Handler Unit} (mute : q.All (·.mute = true))
    (blocked : Blocked p down) (onward : ∀ b s', L.Goes p (.busy (handled (k b)) s') up down) :
    L.Goes p (.busy (handled (q >>= k)) s) up down := by
  rw [handled_bind]
  exact goes_mute mute blocked fun b s' _ => onward b s'

theorem goes_through {q : Handler α} {a : α} (ran : (server W L.cfg).run L.worker q s = .ok (a, s')) :
    ∃ out, s'.sent = s.sent ++ out ∧ ∀ (k : α → Worker Unit) (down : List UInt8),
      L.Goes p (.busy (handled q >>= k) s) up down ↔
        L.Goes p (.busy (k a) s') up (down ++ out.flatMap fun sent => sent.2.sentBytes) := by
  induction q generalizing s with
  | ret b =>
      cases ran
      refine ⟨[], (List.append_nil _).symm, fun k down => ?_⟩
      rw [List.flatMap_nil, List.append_nil]
      exact Iff.rfl
  | op o next ih =>
      obtain ⟨⟨x, s₁⟩, step, rest⟩ := Outcome.andThen_eq_ok.mp ran
      obtain ⟨out, sent, later⟩ := ih x rest
      by_cases mute : o.mute = true
      · refine ⟨out, by rw [sent, exec_sent mute step],
          fun k down => Iff.trans ⟨fun goes => ?_, fun onward => ?_⟩
          (later k down)⟩
        all_goals have action := next_mute (L := L) (s := s) mute fun x => handled (next x) >>= k
        · exact goes.after_right (action ▸ .move ⟨x, s₁, step, rfl⟩)
        · refine Duplex.Orderly.right_move action ⟨_, x, s₁, step, rfl⟩ ?_
          rintro _ ⟨x', s₁', step', rfl⟩
          cases step.symm.trans step'
          exact onward
      · cases o with
        | writeNB fd msg =>
            cases step
            refine ⟨(fd, msg) :: out, by rw [sent]; simp [Server.send], fun k down => ?_⟩
            rw [List.flatMap_cons, ← List.append_assoc, ← later k]
            exact ⟨fun goes => goes.after_right .send, Duplex.Orderly.right_send rfl⟩
        | _ => exact absurd rfl mute

theorem goes_run {q : Handler α} {k : α → Worker Unit} {a : α} {u : Server W} (msgs : List Msg)
    (ran : (server W L.cfg).run L.worker q s = .ok (a, u))
    (sent : u.sent = s.sent ++ msgs.map fun msg => (L.fd, msg))
    (onward : L.Goes p (.busy (k a) u) up (down ++ msgs.flatMap Msg.sentBytes)) :
    L.Goes p (.busy (handled q >>= k) s) up down := by
  obtain ⟨out, sent', later⟩ := goes_through ran
  have same : out = msgs.map fun msg => (L.fd, msg) := List.append_cancel_left (sent'.symm.trans sent)
  refine (later k down).mpr ?_
  rw [same, List.flatMap_map]
  exact onward

theorem goes_ended {q : Handler Unit} {u : Server W} (msgs : List Msg)
    (ran : (server W L.cfg).run L.worker q s = .ok ((), u))
    (sent : u.sent = s.sent ++ msgs.map fun msg => (L.fd, msg))
    (onward : L.Goes p .waiting up (down ++ msgs.flatMap Msg.sentBytes)) :
    L.Goes p (.busy (handled q) s) up down := by
  have whole := goes_run (k := pure) msgs ran sent (goes_finish onward)
  rw [bind_pure] at whole
  exact whole

theorem goes_quiet {q : Handler α} {k : α → Worker Unit} {a : α}
    (ran : (server W L.cfg).run L.worker q s = .ok (a, s)) (onward : L.Goes p (.busy (k a) s) up down) :
    L.Goes p (.busy (handled q >>= k) s) up down := by
  have nothing : s.sent = s.sent ++ ([] : List Msg).map fun msg => (L.fd, msg) := (List.append_nil _).symm
  refine goes_run [] ran nothing ?_
  rw [List.flatMap_nil, List.append_nil]
  exact onward

/-! ## Fields -/

theorem goes_sendToSocket {k : Unit → Api Unit} {buff : List UInt8} {len : Int} (whole : len = buff.length)
    (small : buff.length < 2 ^ 31) (onward : L.Goes (k ()) t (up ++ buff) down) :
    L.Goes (Api.sendToSocket buff len >>= k) t up down := by
  have same : cInt len = buff.length := by
    rw [whole]
    exact cInt_of_small (by omega) (by omega)
  rw [Api.sendToSocket, same, if_neg (by omega), Int.toNat_natCast, List.take_length]
  exact goes_send onward

theorem goes_sendData {k : Unit → Api Unit} {buff : List UInt8} {len : Nat}
    (onward : ∀ sent : List UInt8, sent.length ≤ len → L.Goes (k ()) t (up ++ sent) down) :
    L.Goes (Api.sendToSocket buff len >>= k) t up down := by
  unfold Api.sendToSocket
  by_cases negative : cInt len < 0
  · rw [if_pos negative]
    exact goes_halt
  · rw [if_neg negative]
    refine goes_send (onward _ ?_)
    have taken := List.length_take_le (cInt len).toNat buff
    have least : cInt len ≤ len := by
      unfold cInt Int.bmod
      dsimp only
      split <;> omega
    omega

theorem goes_readInt {k : Int → Api Unit} {v : Int} (onward : L.Goes (k (cInt v)) t up down) :
    L.Goes (Api.readNB 4 >>= fun bytes => Api.given (intOf bytes) >>= k) t up (intBytes v ++ down) := by
  refine goes_read (length_intBytes v) ?_
  rw [intOf_intBytes]
  exact onward

theorem goes_readSizeT {k : Nat → Api Unit} {n : Nat} (small : n < 2 ^ 64)
    (onward : L.Goes (k n) t up down) :
    L.Goes (Api.readNB 8 >>= fun bytes => Api.given (sizeTOf bytes) >>= k) t up (sizeTBytes n ++ down) := by
  refine goes_read (length_sizeTBytes n) ?_
  rw [sizeTOf_sizeTBytes small]
  exact onward

theorem handled_given (a : α) : handled (given (some a)) = pure a := rfl

theorem goes_readPath {k : Option Path → Worker Unit} {path : Path} (small : path.length + 1 < 2 ^ 31)
    (onward : L.Goes p (.busy (k (some (cut path))) s) up down) :
    L.Goes p (.busy (Socket.readPath >>= k) s) (pathBytes path ++ up) down := by
  have size : cInt (path.length + 1 : Int) = path.length + 1 := cInt_of_small (by omega) (by omega)
  unfold Socket.readPath
  rw [LawfulMonad.bind_assoc, pathBytes, List.append_assoc]
  refine goes_take (length_intBytes _) ?_
  have positive : ¬(path.length + 1 : Int) < 0 := by omega
  rw [intOf_intBytes, size, handled_given, pure_bind, if_neg positive, LawfulMonad.bind_assoc]
  refine goes_take (by simp) ?_
  rw [stringOf_terminated]
  exact onward

/-! ## Requests -/

theorem goes_setFileData {k : Option Api.FileData → Api Unit} {filePath : Path} {forWrite : Bool}
    (failed : L.Goes (k none) t up down)
    (found : ∀ data : Api.FileData, data.Sound → L.Goes (k (some data)) t up down) :
    L.Goes (Api.setFileData filePath forWrite >>= k) t up down := by
  unfold Api.setFileData
  rw [LawfulMonad.bind_assoc]
  refine goes_ask fun abspath _ => ?_
  cases abspath with
  | none => exact failed
  | some abspath =>
      dsimp only
      by_cases long : posixPathMax ≤ min abspath.length posixPathMax + 1
      · rw [if_pos long]
        exact failed
      · rw [if_neg long]
        have short : abspath.length + 1 < posixPathMax := by omega
        have pathLen : ((min abspath.length posixPathMax + 1 : Nat) : Int) = abspath.length + 1 := by omega
        cases forWrite with
        | false => exact found _ ⟨short, pathLen, Nat.two_pow_pos 64⟩
        | true =>
            rw [if_pos rfl, LawfulMonad.bind_assoc]
            refine goes_ask fun size _ => ?_
            cases size with
            | none => exact failed
            | some size => exact found _ ⟨short, pathLen, sizeT_lt size⟩

theorem goes_sendMetadata {k : Unit → Api Unit} {func : Int} {data : Api.FileData} (sound : data.Sound)
    (onward : L.Goes (k ()) t (up ++ (intBytes func ++ pathBytes data.abspath)) down) :
    L.Goes (Api.sendMetadata func (some data) >>= k) t up down := by
  have short : data.abspath.length + 1 < 256 := sound.short
  rw [pathBytes, ← sound.pathLen, ← List.append_assoc, ← List.append_assoc] at onward
  unfold Api.sendMetadata
  rw [LawfulMonad.bind_assoc]
  refine goes_sendToSocket (by rw [length_intBytes]; rfl) (by rw [length_intBytes]; decide) ?_
  rw [LawfulMonad.bind_assoc]
  refine goes_sendToSocket (by rw [length_intBytes]; rfl) (by rw [length_intBytes]; decide) ?_
  refine goes_sendToSocket ?_ ?_ onward
  · rw [sound.pathLen, List.length_append]
    rfl
  · rw [List.length_append]
    exact Nat.lt_trans short (by decide)

theorem goes_called {func : Int} (onward : ∀ s fuel rand, Startable L.cfg s →
      L.Goes p (.busy (Socket.reqFunArr L.cfg fuel L.fd rand (cInt func)) s) up down) :
    L.Goes p .waiting (intBytes func ++ up) down := by
  refine Duplex.Orderly.right_recv rfl (length_intBytes func) ?_
  refine Duplex.Orderly.right_move rfl ⟨_, _, 0, fun _ => 0, startable_of_counted .initial, rfl⟩ ?_
  rintro _ ⟨s', fuel, rand, start', rfl⟩
  rw [intOf_intBytes, handled_given, pure_bind]
  exact onward s' fuel rand start'

/-! ## The beginning of a function -/

theorem goes_search (idle : Idle L.cfg s) {k : Int × Option FileId → Worker Unit} {path : Path}
    (small : path.length + 1 < 2 ^ 31)
    (missing : s.store.lookup L.cfg (cut path) = .ok none → L.Goes p (.busy (k (ENOENT, none)) s) up down)
    (known : ∀ f file, s.store.lookup L.cfg (cut path) = .ok (some f) → s.store.files f = some file →
      L.Goes p (.busy (k (0, some f)) s) up down) :
    L.Goes p (.busy (Socket.fileSearchSilent >>= k) s) (pathBytes path ++ up) down := by
  unfold Socket.fileSearchSilent
  rw [LawfulMonad.bind_assoc]
  refine goes_readPath small ?_
  rcases idle.lookup (cut path) with searched | ⟨f, file, searched, -, found⟩
  · exact goes_quiet (idle.run_fileSearchSilent L.worker searched) (missing searched)
  · exact goes_quiet (idle.run_fileSearchSilent L.worker searched) (known f file searched found)

theorem goes_openCheck (idle : Idle L.cfg s) {k : Int × Option FileId → Worker Unit} {path : Path} {pid : Pid}
    (small : path.length + 1 < 2 ^ 31)
    (missing : L.Goes p (.busy (k (ENOENT, none)) s) up down)
    (known : ∀ f file, s.store.lookup L.cfg (cut path) = .ok (some f) → s.store.files f = some file →
      L.Goes p (.busy (k (openError file (cInt pid), some f)) s) up down) :
    L.Goes p (.busy (Socket.fileOpenCheck >>= k) s) (pathBytes path ++ (intBytes pid ++ up)) down := by
  unfold Socket.fileOpenCheck
  rw [LawfulMonad.bind_assoc]
  refine goes_search idle small (fun _ => ?_) fun f file searched found => ?_
  · dsimp only
    rw [LawfulMonad.bind_assoc]
    exact goes_take (length_intBytes pid) (goes_quiet rfl missing)
  · have checked := idle.run_fileOpenCheck L.worker (cInt pid) searched found
    rw [fileOpenCheck, Machine.run_bind_of (idle.run_fileSearchSilent L.worker searched)] at checked
    dsimp only
    rw [LawfulMonad.bind_assoc]
    refine goes_take (length_intBytes pid) ?_
    rw [intOf_intBytes]
    exact goes_quiet checked (known f file searched found)

end Link

end FileServer
