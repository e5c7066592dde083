import FileServer.Program.Along
import FileServer.Proof.Sequential.Requests

/-!
# Admission

Whether what `fileWrite` and `fileAppend` accept could be stored in an otherwise empty memory.
-/

namespace FileServer
open Program

def Op.sends : Op → Option Msg
  | .writeNB _ msg => some msg
  | _ => none

def Op.mute (o : Op) : Bool := o.sends.isNone

/-- The first message that the handler sends. -/
def firstAnswer {W α : Type} (cfg : Config) (w : W) : Handler α → Server W → Option Msg
  | .ret _, _ => none
  | .op o next, s => match o.sends, Server.exec cfg w o s with
      | some msg, _ => some msg
      | none, .ok (x, s') => firstAnswer cfg w (next x) s'
      | none, _ => none

/-- The handler tells the client that there is no error. -/
def Accepts {W : Type} (cfg : Config) (w : W) (fuel fd : Nat) (r : Request) (s : Server W) : Prop :=
  firstAnswer cfg w (handle cfg fuel fd r) s = some (.int 0)

/-- The size of the file once the request is done, in exact arithmetic. -/
def Request.resulting (cfg : Config) (σ : Store) : Request → Option Nat
  | .fileWrite _ _ n _ => some n
  | .fileAppend path _ n _ => match σ.lookup cfg path with
      | .ok (some f) => (σ.files f).map fun file => file.size + n
      | _ => none
  | _ => none

/-- `n` bytes fit in the memory and, rounded up to pages, in the pages that are created. -/
def FitsPages (cfg : Config) (n : Nat) : Prop :=
  n ≤ cfg.serverMemorySize ∧
    (n + cfg.pageSize - 1) / cfg.pageSize ≤ (memorySetup cfg).pages.length

instance (cfg : Config) (n : Nat) : Decidable (FitsPages cfg n) := inferInstanceAs (Decidable (_ ∧ _))

/-- The bytes of the memory that belong to a page. -/
def Config.inPages (cfg : Config) : Nat := cfg.serverMemorySize - cfg.serverMemorySize % cfg.pageSize

section
variable {W α β : Type} {cfg : Config} {w : W} {s s' : Server W} {f : FileId} {file : MemFile}

/-! ## The first answer -/

theorem firstAnswer_bind {p : Handler α} (mute : p.All (·.mute = true)) (k : α → Handler β) :
    firstAnswer cfg w (p >>= k) s = match (server W cfg).run w p s with
      | .ok (a, s') => firstAnswer cfg w (k a) s'
      | _ => none := by
  induction p generalizing s with
  | ret a => rfl
  | op o next ih =>
      have silent : o.sends = none := Option.isNone_iff_eq_none.mp mute.1
      show firstAnswer cfg w (.op o fun x => (next x).bind k) s = _
      rw [firstAnswer, silent, Machine.run_op]
      have same : (server W cfg).exec w o s = Server.exec cfg w o s := rfl
      rw [same]
      cases Server.exec cfg w o s with
      | ok result => exact ih result.1 (mute.2 result.1)
      | _ => rfl

theorem firstAnswer_bind_of {p : Handler α} {a : α} (mute : p.All (·.mute = true))
    (ran : (server W cfg).run w p s = .ok (a, s')) (k : α → Handler β) :
    firstAnswer cfg w (p >>= k) s = firstAnswer cfg w (k a) s' := by
  rw [firstAnswer_bind mute, ran]

theorem mute_call {o : Op} (mute : o.mute = true) : (call o).All (·.mute = true) :=
  (all_perform o).mpr mute

theorem mute_hashGetFile (str : CStr) (flag : Flag) : (hashGetFile str flag).All (·.mute = true) :=
  (mute_call rfl).bind fun _ => (mute_call rfl).bind fun _ => (mute_call rfl).bind fun _ => all_pure _

theorem mute_fileOpenCheck (path : Path) (pid : Pid) :
    (fileOpenCheck path pid).All (·.mute = true) := by
  have search : (fileSearchSilent path).All (·.mute = true) :=
    (mute_hashGetFile _ _).bind fun _ => all_pure _
  unfold fileOpenCheck
  refine search.bind fun (missing, ptr) => .ite (all_pure _) ?_
  cases ptr with
  | none => exact all_pure _
  | some f =>
      exact (mute_call rfl).bind fun _ => (mute_call rfl).bind fun _ => (mute_call rfl).bind fun _ =>
        all_pure _

theorem firstAnswer_checked (idle : Idle cfg s) {path : Path} {pid : Pid} (fd : Nat)
    (err : MemFile → Int → Int) (rest : FileId → MemFile → Int → Handler Unit)
    (answered : firstAnswer cfg w (do
      let (reqErr, fileReq) ← fileOpenCheck path pid
      let f ← deref fileReq
      lock (.file f)
      let file ← load f
      writeNB fd (.int (err file reqErr))
      rest f file (err file reqErr)) s = some (.int 0)) :
    ∃ f file, s.store.lookup cfg path = .ok (some f) ∧ f ∈ s.store.recorded ∧
      s.store.files f = some file ∧ err file (openError file pid) = 0 := by
  rcases idle.lookup path with missing | ⟨f, file, searched, mem, found⟩
  · rw [firstAnswer_bind_of (mute_fileOpenCheck path pid) (idle.run_fileOpenCheck_missing w pid missing)]
      at answered
    cases answered
  · refine ⟨f, file, searched, mem, found, ?_⟩
    have loaded : (server W cfg).run w (load f) (s.setOwner (.file f) (some w)) =
      .ok (file, s.setOwner (.file f) (some w)) := run_load found
    rw [firstAnswer_bind_of (mute_fileOpenCheck path pid) (idle.run_fileOpenCheck w pid searched found)]
      at answered
    have known : (deref (some f)).All (·.mute = true) := all_pure f
    have locks : (lock (.file f)).All (·.mute = true) := mute_call rfl
    have loads : (load f).All (·.mute = true) := mute_call rfl
    dsimp only at answered
    rw [firstAnswer_bind_of known (run_deref_some f), firstAnswer_bind_of locks (idle.relock w found).1,
      firstAnswer_bind_of loads loaded] at answered
    exact Msg.int.inj (Option.some.inj answered)

theorem write_accepted (idle : Idle cfg s) {path : Path} {pid : Pid} {n fuel fd : Nat}
    {data : List UInt8} (accepts : Accepts cfg w fuel fd (.fileWrite path pid n data) s) :
    n ≤ cfg.serverMemorySize := by
  obtain ⟨f, file, -, -, -, accepted⟩ := firstAnswer_checked idle fd
    (fun file reqErr => if cfg.serverMemorySize < n then EFBIG
      else if file.pagesN ≠ 0 then EEXIST else reqErr)
    (fun f _ reqErr => if reqErr ≠ 0 then unlock (.file f)
      else writeAccepted cfg fuel fd f n data) accepts
  exact (writeError_eq_zero.mp accepted).1

theorem append_accepted (idle : Idle cfg s) {path : Path} {pid : Pid} {n fuel fd : Nat}
    {data : List UInt8} (accepts : Accepts cfg w fuel fd (.fileAppend path pid n data) s) :
    ∃ f file, s.store.lookup cfg path = .ok (some f) ∧ f ∈ s.store.recorded ∧
      s.store.files f = some file ∧ sizeT (n + file.size) ≤ cfg.serverMemorySize := by
  obtain ⟨f, file, searched, mem, found, accepted⟩ := firstAnswer_checked idle fd
    (fun file reqErr => if cfg.serverMemorySize < sizeT (n + file.size) then 1 else reqErr)
    (fun f file reqErr => if reqErr ≠ 0 then unlock (.file f)
      else appendAccepted cfg fuel fd f file n data) accepts
  exact ⟨f, file, searched, mem, found, (appendError_eq_zero.mp accepted).1⟩

/-! ## Bytes and pages -/

theorem inPages_eq (cfg : Config) :
    cfg.inPages = cfg.serverMemorySize / cfg.pageSize * cfg.pageSize := by
  have split := Nat.div_add_mod cfg.serverMemorySize cfg.pageSize
  rw [Nat.mul_comm] at split
  unfold Config.inPages
  omega

theorem length_pageListCreate (n : Nat) : (pageListCreate n).length = n := by
  unfold pageListCreate
  rw [List.foldl_flip_cons_eq_append']
  simp

theorem fitsPages_iff {n : Nat} : FitsPages cfg n ↔ n ≤ cfg.inPages := by
  have positive := cfg.pageSize_pos
  have pages : (memorySetup cfg).pages.length = cfg.serverMemorySize / cfg.pageSize :=
    length_pageListCreate _
  have least : cfg.inPages ≤ cfg.serverMemorySize := Nat.sub_le ..
  unfold FitsPages
  rw [pages, ← Nat.lt_succ_iff (n := cfg.serverMemorySize / cfg.pageSize), Nat.div_lt_iff_lt_mul positive,
    Nat.succ_mul, ← inPages_eq]
  omega

/-- What an accepted request leaves fits in an otherwise empty memory unless its size has wrapped
around, or reaches into the bytes of the memory that are less than a page. -/
theorem admission_sound {r : Request} {n fuel fd : Nat} (served : Served W cfg (fun _ _ => True) s)
    (resulting : r.resulting cfg s.store = some n) (accepts : Accepts cfg w fuel fd r s) :
    FitsPages cfg n ↔ n < 2 ^ 64 ∧ ¬(cfg.inPages < n ∧ n ≤ cfg.serverMemorySize) := by
  have idle := served.idle
  have limit := cfg.serverMemorySize_le
  have least : cfg.inPages ≤ cfg.serverMemorySize := Nat.sub_le ..
  have checked : n < 2 ^ 64 → n ≤ cfg.serverMemorySize := by
    intro small
    cases r with
    | fileWrite path pid m data =>
        cases resulting
        exact write_accepted idle accepts
    | fileAppend path pid m data =>
        obtain ⟨f, file, searched, -, found, fits⟩ := append_accepted idle accepts
        have sum : file.size + m = n := by
          simpa [Request.resulting, searched, found] using resulting
        rw [← Int.natCast_add, Nat.add_comm, sum, sizeT_of_small small] at fits
        exact fits
    | _ => cases resulting
  rw [fitsPages_iff]
  constructor
  · intro fits
    exact ⟨by omega, by omega⟩
  · rintro ⟨small, whole⟩
    have := checked small
    omega

end

/-- Ten bytes of memory, of which eight make pages. -/
def oddConfig : Config :=
  ⟨10, 4, 2, 1, smallConfig.pageSize_pos, smallConfig.pageSize_lt, smallConfig.fileMax_pos, smallConfig.fileMax_lt,
    smallConfig.fileHashTbSize_pos, by decide⟩

theorem admission_unsound : Served Unit oddConfig (fun _ _ => True)
      (reached oddConfig 5 [.fileInit [97], .fileOpen [97] 7]) ∧
    Accepts oddConfig () 5 0 (.fileWrite [97] 7 10 (List.replicate 10 1))
      (reached oddConfig 5 [.fileInit [97], .fileOpen [97] 7]) ∧
    ¬FitsPages oddConfig 10 :=
  ⟨served_reached (by simp [Request.WellFormed]) (fun _ _ _ => trivial) (by decide +kernel), rfl, by decide⟩

theorem admission_sound_example : FitsPages smallConfig 16 := by
  have served : Served Unit smallConfig (fun _ _ => True)
      (reached smallConfig 5 [.fileInit [97], .fileOpen [97] 7]) :=
    served_reached (by simp [Request.WellFormed]) (fun _ _ _ => trivial) (by decide +kernel)
  have accepts : Accepts smallConfig () 5 0 (.fileWrite [97] 7 16 (List.replicate 16 1))
      (reached smallConfig 5 [.fileInit [97], .fileOpen [97] 7]) := rfl
  exact (admission_sound served rfl accepts).mpr ⟨by decide, by decide⟩

end FileServer
