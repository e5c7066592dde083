import FileServer.Proof.Sequential.Coinciding

/-!
# A mutex locked twice

When a request, served alone, asks for a mutex that it holds.
-/

namespace FileServer
open Program

def Request.writes : Request → Prop
  | .fileWrite .. => True
  | _ => False

/-- `fileWrite` finds the stack full when it adds its file. Or, going down the stack from its top (past the
uppermost cell if that holds the name passed in), the first recorded name is that of a file whose mutex `w`
holds. -/
def Reenters {W : Type} (cfg : Config) (r : Request) (w : W) (t : Server W) : Op → Prop
  | .stackMax => r.writes ∧ t.store.fstack.top = t.store.fstack.max
  | .stackGetTop str => ∃ path i f, t.readStr str = .ok path ∧ t.store.fstack.Comparable path ∧
      t.store.fstack.Uppermost (t.store.lookup cfg) path i f ∧ t.owner (.file f) = some w
  | _ => False

section
variable {W α β : Type} {cfg : Config} {adds : Prop} {w : W} {s t t' : Server W} {m : Mutex} {n : Nat}
  {f : FileId}

/-! ## `workerFunctions.c` -/

theorem lockless_call {o : Op} (lockless : o.lockless = true) : (call o).All (·.lockless = true) :=
  (all_perform o).mpr lockless

theorem lockless_abort {e : Fault} : (abort e : Handler α).All (·.lockless = true) :=
  ⟨rfl, fun x => x.elim⟩

theorem lockless_addPageToMem (cfg : Config) (input : List UInt8) (f : FileId) (pageInd : Int) (size : Nat)
    (offset : Int) : (addPageToMem cfg input f pageInd size offset).All (·.lockless = true) := by
  unfold addPageToMem
  refine .ite (all_pure _) ((lockless_call rfl).bind fun file => ?_)
  cases file.pages[pageInd.toNat]? with
  | none => exact .ite (lockless_abort.bind fun _ => lockless_abort) lockless_abort
  | some index =>
      have copy : (call (.memcpy index offset input size) >>= fun _ => pure (0 : Int)).All
          (·.lockless = true) := (lockless_call rfl).bind fun _ => all_pure _
      exact .ite (lockless_abort.bind fun _ => copy) copy

theorem lockless_writePages (cfg : Config) (f : FileId) (n toWrite : Nat) (input : List UInt8) :
    (writePages cfg f n toWrite input).All (·.lockless = true) := by
  induction n generalizing toWrite input with
  | zero => exact all_pure _
  | succ n ih => exact (lockless_addPageToMem ..).bind fun _ => ih ..

theorem lockless_appendData (cfg : Config) (f : FileId) (oldPages size appendSize : Nat)
    (bytesAvailable bytesOverflow : Int) (data : List UInt8) :
    (appendData cfg f oldPages size appendSize bytesAvailable bytesOverflow data).All
      (·.lockless = true) := by
  unfold appendData
  have rest (_ : Unit) : (do
      let firstAdd := if sizeT bytesAvailable < appendSize then bytesAvailable else cInt appendSize
      let input := data.take appendSize
      let _ ← addPageToMem cfg input f (oldPages - 1 : Int) (sizeT firstAdd)
        (cInt ((size % cfg.pageSize : Nat)))
      let pagesN := (← load f).pagesN
      let rest ← writePages cfg f (pagesN - 1 - oldPages) oldPages (input.drop firstAdd.toNat)
      if oldPages ≠ pagesN then
        let _ ← addPageToMem cfg rest f (max oldPages (pagesN - 1) : Nat)
          (sizeT bytesOverflow % cfg.pageSize) 0 : Handler Unit).All (·.lockless = true) :=
    (lockless_addPageToMem ..).bind fun _ => All.bind (lockless_call rfl) fun _ =>
      (lockless_writePages ..).bind fun _ =>
        .ite ((lockless_addPageToMem ..).bind fun _ => all_pure _) (all_pure _)
  exact .ite (lockless_abort.bind rest) (rest ())

theorem lockless_sendPages (cfg : Config) (fd : Nat) (f : FileId) (n i : Nat) :
    (sendPages cfg fd f n i).All (·.lockless = true) := by
  induction n generalizing i with
  | zero => exact all_pure _
  | succ n ih =>
      refine All.bind (lockless_call rfl) fun file => ?_
      cases file.pages[i]? with
      | none => exact lockless_abort
      | some page => exact (lockless_call rfl).bind fun _ => All.bind (lockless_call rfl) fun _ => ih _

theorem lockless_arrayCopy (n i : Nat) : (arrayCopy n i).All (·.lockless = true) := by
  refine (all_arrayCopy n i).mono fun o copies => ?_
  obtain rfl | ⟨i, rfl⟩ := copies <;> rfl

theorem coin_writeNB {t₀ : Server W} (fd : Nat) (msg : Msg) (same : t.owner = t₀.owner) :
    Coin cfg adds w (writeNB fd msg) (Restored t₀) t :=
  coin_call rfl fun _ _ _ later => later.trans same

theorem coin_load {t₀ : Server W} (f : FileId) (same : t.owner = t₀.owner) :
    Coin cfg adds w (load f) (Restored t₀) t :=
  coin_call rfl fun _ _ _ later => later.trans same

theorem coin_store {t₀ : Server W} (f : FileId) (field : FieldWrite) (same : t.owner = t₀.owner) :
    Coin cfg adds w (store f field) (Restored t₀) t :=
  coin_call rfl fun _ _ _ later => later.trans same

theorem coin_give {t₀ : Server W} (unowned : t₀.owner m = none)
    (same : t.owner = (t₀.setOwner m (some w)).owner) :
    Coin cfg adds w (unlock m) (Restored t₀) t :=
  coin_unlock (owner_restored unowned same)

theorem coin_take {k : Unit → Handler α} {post : α → Server W → Prop} (holds : HoldsNone w 0 t)
    (f : FileId)
    (rest : ∀ t₁, t.owner (.file f) = none → t₁.owner = (t.setOwner (.file f) (some w)).owner →
      HoldsNone w 1 t₁ → Coin cfg adds w (k ()) post t₁) :
    Coin cfg adds w (lock (.file f) >>= k) post t := by
  refine (coin_lock (q := fun _ t₁ => t.owner (.file f) = none ∧ t₁ = t.setOwner (.file f) (some w))
    (holds (.file f) (Nat.zero_le _)) fun unowned => ⟨unowned, rfl⟩).bind ?_
  rintro _ _ ⟨unowned, rfl⟩
  exact rest _ unowned rfl ((holds.mono (Nat.zero_le 1)).lock (m := .file f) Nat.zero_lt_one)

theorem coin_fileSearchSilent (path : Path) (holds : HoldsNone w 0 t) :
    Coin cfg adds w (fileSearchSilent path) (Restored t) t := by
  unfold fileSearchSilent
  exact (coin_hashGetFile _ _ (holds.mono (Nat.zero_le 3))).bind fun _ _ same => coin_ret same

theorem coin_fileOpenCheck (path : Path) (pid : Pid) (holds : HoldsNone w 0 t) :
    Coin cfg adds w (fileOpenCheck path pid) (Restored t) t := by
  unfold fileOpenCheck
  refine (coin_fileSearchSilent path holds).bind fun (missing, ptr) t₁ same₁ => ?_
  refine .ite (fun _ => coin_ret same₁) fun _ => ?_
  cases ptr with
  | none => exact coin_ret same₁
  | some f =>
      refine coin_take (holds.congr same₁) f fun t₂ unowned same₂ _ => ?_
      refine (coin_load f rfl).bind fun file t₃ same₃ => ?_
      exact (coin_give unowned (same₃.trans same₂)).bind fun _ _ same₄ => coin_ret (same₄.trans same₁)

theorem coin_sendFile (fd : Nat) (f : FileId) (holds : HoldsNone w 0 t) :
    Coin cfg adds w (sendFile cfg fd f) (Restored t) t := by
  unfold sendFile
  refine coin_take holds f fun t₁ unowned same₁ _ => ?_
  refine (coin_load f same₁).bind fun file t₂ same₂ => (coin_writeNB fd _ same₂).bind fun _ t₃ same₃ => ?_
  have give {t₄ : Server W} (same : t₄.owner = (t.setOwner (.file f) (some w)).owner) :
      Coin cfg adds w (unlock (.file f)) (Restored t) t₄ := coin_give unowned same
  refine .ite (fun _ => ?_) fun _ => by exact give same₃
  refine (coin_all (lockless_sendPages cfg fd f _ _)).bind fun _ t₄ same₄ => ?_
  have same₄' := same₄.trans same₃
  split
  · exact coin_abort.bind fun _ _ => False.elim
  · rename_i page _
    refine (coin_call rfl fun _ _ _ same => same.trans same₄' :
      Coin cfg adds w (call (.memRead page (lastPageSize cfg file.size))) (Restored _) t₄).bind
        fun bytes t₅ same₅ => ?_
    exact (coin_writeNB fd _ same₅).bind fun _ t₆ same₆ => give same₆

theorem coin_deref (ptr : Option FileId) : Coin cfg adds w (deref ptr) (Restored t) t := by
  cases ptr with
  | none => exact coin_abort.mono fun _ _ => False.elim
  | some f => exact coin_ret rfl

theorem coin_fileRead (fd : Nat) (path : Path) (pid : Pid) (holds : HoldsNone w 0 t) :
    Coin cfg adds w (fileRead cfg fd path pid) (Restored t) t := by
  unfold fileRead
  refine (coin_fileOpenCheck path pid holds).bind fun (reqErr, ptr) t₁ same₁ => ?_
  refine (coin_writeNB fd _ same₁).bind fun _ t₂ same₂ => .ite (fun _ => ?_) fun _ => coin_ret same₂
  refine (coin_deref ptr).bind fun f t₃ same₃ => ?_
  have same := same₃.trans same₂
  exact (coin_sendFile fd f (holds.congr same)).mono fun _ _ later => later.trans same

theorem coin_filePagesInitialize (fuel : Nat) (f : FileId) (holds : HoldsNone w 1 t) :
    Coin cfg adds w (filePagesInitialize cfg fuel f) (Restored t) t := by
  unfold filePagesInitialize
  refine (coin_load f rfl).bind fun file t₁ same₁ => (coin_store f _ same₁).bind fun _ t₂ same₂ => ?_
  refine (coin_store f _ same₂).bind fun _ t₃ same₃ => ?_
  exact (coin_filePagesFill fuel f _ (holds.congr same₃)).mono fun _ _ later => later.trans same₃

theorem coin_filePagesRenew (fuel : Nat) (f : FileId) (dim : Int) (holds : HoldsNone w 1 t) :
    Coin cfg adds w (filePagesRenew fuel f dim) (Restored t) t := by
  unfold filePagesRenew
  refine (coin_load f rfl).bind fun file t₁ same₁ => .ite (fun _ => coin_ret same₁) fun _ => ?_
  refine .ite (fun _ => coin_abort.bind fun _ _ => False.elim) fun _ => ?_
  refine (coin_filePagesExtra fuel f _ (holds.congr same₁)).bind fun extra t₂ same₂ => ?_
  exact coin_store f _ (same₂.trans same₁)

theorem coin_writeAccepted (fuel fd : Nat) (f : FileId) (fileSize : Nat) (data : List UInt8) (here : adds)
    {t₀ : Server W} (unowned : t₀.owner (.file f) = none)
    (same : t.owner = (t₀.setOwner (.file f) (some w)).owner) (holds : HoldsNone w 1 t) :
    Coin cfg adds w (writeAccepted cfg fuel fd f fileSize data) (Restored t₀) t := by
  unfold writeAccepted
  refine (coin_store f _ rfl).bind fun _ t₁ same₁ => ?_
  refine (coin_fileNUpdate cfg.fileMax (holds.congr same₁)).bind fun _ t₂ same₂ => ?_
  have same₂' := same₂.trans same₁
  refine (coin_filePagesInitialize fuel f (holds.congr same₂')).bind fun _ t₃ same₃ => ?_
  refine (coin_load f (same₃.trans same₂')).bind fun file t₄ same₄ => ?_
  refine (coin_all (lockless_writePages cfg f _ _ _)).bind fun input t₅ same₅ => ?_
  refine (coin_all (lockless_addPageToMem cfg _ f _ _ _)).bind fun _ t₆ same₆ => ?_
  have same₆' := same₆.trans (same₅.trans same₄)
  refine (coin_fileStackAdd _ here ((holds.mono (Nat.le_succ 1)).congr same₆')).bind fun _ t₇ same₇ => ?_
  refine (coin_give unowned ((same₇.trans same₆').trans same)).bind fun _ t₈ same₈ => ?_
  exact coin_writeNB fd _ same₈

theorem coin_fileWrite (fuel fd : Nat) (path : Path) (pid : Pid) (fileSize : Nat) (data : List UInt8)
    (here : adds) (holds : HoldsNone w 0 t) :
    Coin cfg adds w (fileWrite cfg fuel fd path pid fileSize data) (Restored t) t := by
  unfold fileWrite
  refine (coin_fileOpenCheck path pid holds).bind fun (reqErr, ptr) t₁ same₁ => ?_
  refine (coin_deref ptr).bind fun f t₂ same₂ => ?_
  have same₂' := same₂.trans same₁
  refine coin_take (holds.congr same₂') f fun t₃ unowned same₃ holds₃ => ?_
  refine (coin_load f rfl).bind fun file t₄ same₄ => (coin_writeNB fd _ same₄).bind fun _ t₅ same₅ => ?_
  have ended {p : Handler Unit} (coin : Coin cfg adds w p (Restored t₂) t₅) :
      Coin cfg adds w p (Restored t) t₅ := coin.mono fun _ _ same => same.trans same₂'
  refine .ite (fun _ => ended (coin_give unowned (same₅.trans same₃))) fun _ => ended ?_
  exact coin_writeAccepted fuel fd f fileSize data here unowned (same₅.trans same₃) (holds₃.congr same₅)

theorem coin_appendAccepted (fuel fd : Nat) (f : FileId) (file : MemFile) (appendSize : Nat)
    (data : List UInt8) {t₀ : Server W} (unowned : t₀.owner (.file f) = none)
    (same : t.owner = (t₀.setOwner (.file f) (some w)).owner) (holds : HoldsNone w 1 t) :
    Coin cfg adds w (appendAccepted cfg fuel fd f file appendSize data) (Restored t₀) t := by
  unfold appendAccepted
  refine (coin_filePagesRenew fuel f _ holds).bind fun _ t₁ same₁ => ?_
  unfold appendRest
  refine (coin_all (lockless_appendData ..)).bind fun _ t₂ same₂ => ?_
  refine (coin_store f _ (same₂.trans same₁)).bind fun _ t₃ same₃ => ?_
  exact (coin_give unowned (same₃.trans same)).bind fun _ t₄ same₄ => coin_writeNB fd _ same₄

theorem coin_fileAppend (fuel fd : Nat) (path : Path) (pid : Pid) (appendSize : Nat) (data : List UInt8)
    (holds : HoldsNone w 0 t) :
    Coin cfg adds w (fileAppend cfg fuel fd path pid appendSize data) (Restored t) t := by
  unfold fileAppend
  refine (coin_fileOpenCheck path pid holds).bind fun (reqErr, ptr) t₁ same₁ => ?_
  refine (coin_deref ptr).bind fun f t₂ same₂ => ?_
  have same₂' := same₂.trans same₁
  refine coin_take (holds.congr same₂') f fun t₃ unowned same₃ holds₃ => ?_
  refine (coin_load f rfl).bind fun file t₄ same₄ => (coin_writeNB fd _ same₄).bind fun _ t₅ same₅ => ?_
  have ended {p : Handler Unit} (coin : Coin cfg adds w p (Restored t₂) t₅) :
      Coin cfg adds w p (Restored t) t₅ := coin.mono fun _ _ same => same.trans same₂'
  refine .ite (fun _ => ended (coin_give unowned (same₅.trans same₃))) fun _ => ended ?_
  exact coin_appendAccepted fuel fd f file appendSize data unowned (same₅.trans same₃) (holds₃.congr same₅)

theorem coin_fileOpen (fd : Nat) (path : Path) (pid : Pid) (holds : HoldsNone w 0 t) :
    Coin cfg adds w (fileOpen fd path pid) (Restored t) t := by
  unfold fileOpen
  refine (coin_fileSearchSilent path holds).bind fun (reqErr, ptr) t₁ same₁ => ?_
  refine (coin_writeNB fd _ same₁).bind fun _ t₂ same₂ => .ite (fun _ => ?_) fun _ => coin_ret same₂
  refine (coin_deref ptr).bind fun f t₃ same₃ => ?_
  have same₃' := same₃.trans same₂
  refine coin_take (holds.congr same₃') f fun t₄ unowned same₄ _ => ?_
  refine (coin_load f same₄).bind fun file t₅ same₅ => (coin_store f _ same₅).bind fun _ t₆ same₆ => ?_
  exact (coin_give unowned same₆).mono fun _ _ later => later.trans same₃'

theorem coin_fileClose (fd : Nat) (path : Path) (pid : Pid) (holds : HoldsNone w 0 t) :
    Coin cfg adds w (fileClose fd path pid) (Restored t) t := by
  unfold fileClose
  refine (coin_fileSearchSilent path holds).bind fun (reqErr, ptr) t₁ same₁ => ?_
  refine (coin_writeNB fd _ same₁).bind fun _ t₂ same₂ => ?_
  cases ptr with
  | none => exact coin_ret same₂
  | some f =>
      refine .ite (fun _ => ?_) fun _ => coin_ret same₂
      refine coin_take (holds.congr same₂) f fun t₃ unowned same₃ _ => ?_
      refine (coin_load f same₃).bind fun file t₄ same₄ => (coin_store f _ same₄).bind fun _ t₅ same₅ => ?_
      exact (coin_give unowned same₅).mono fun _ _ later => later.trans same₂

theorem coin_fileDelete (fd : Nat) (path : Path) (pid : Pid) (holds : HoldsNone w 0 t) :
    Coin cfg adds w (fileDelete fd path pid) (Restored t) t := by
  unfold fileDelete
  refine (coin_fileOpenCheck path pid holds).bind fun (reqErr, ptr) t₁ same₁ => ?_
  refine (coin_writeNB fd _ same₁).bind fun _ t₂ same₂ => .ite (fun _ => ?_) fun _ => coin_ret same₂
  refine (coin_deref ptr).bind fun f t₃ same₃ => ?_
  have same₃' := same₃.trans same₂
  refine coin_take (holds.congr same₃') f fun t₄ unowned same₄ holds₄ => ?_
  refine (coin_hashGetFile _ _ (holds₄.mono (Nat.le_add_right 1 2))).bind fun _ t₅ same₅ => ?_
  refine (coin_give unowned (same₅.trans same₄)).bind fun _ t₆ same₆ => ?_
  have same₆' := same₆.trans same₃'
  exact (coin_fileFree f ((holds.mono (Nat.zero_le 4)).congr same₆')).mono fun _ _ later => later.trans same₆'

theorem coin_fileSearch (fd : Nat) (path : Path) (holds : HoldsNone w 0 t) :
    Coin cfg adds w (fileSearch fd path) (Restored t) t := by
  unfold fileSearch
  refine (coin_hashGetFile _ _ (holds.mono (Nat.zero_le 3))).bind fun _ t₁ same₁ => ?_
  exact (coin_writeNB fd _ same₁).bind fun _ _ same₂ => coin_ret same₂

theorem coin_fileInit (fd : Nat) (path : Path) (holds : HoldsNone w 0 t) :
    Coin cfg adds w (fileInit fd path) (Restored t) t := by
  unfold fileInit
  have new : Coin cfg adds w (call (.newFile path)) (Restored t) t := coin_call rfl fun _ _ _ same => same
  refine new.bind fun f t₁ same₁ => ?_
  have holds₁ := holds.congr same₁
  refine (coin_lock (q := fun _ t₂ => t₁.owner .hashTB = none ∧ t₂ = t₁.setOwner .hashTB (some w))
    (holds₁ .hashTB (Nat.zero_le _)) fun unowned => ⟨unowned, rfl⟩).bind ?_
  rintro _ _ ⟨unowned, rfl⟩
  have apart : Mutex.file f ≠ .hashTB := nofun
  have free : (t₁.setOwner .hashTB (some w)).owner (.file f) ≠ some w := by
    rw [Server.setOwner_owner_of_ne _ _ apart]
    exact holds₁ (.file f) (Nat.zero_le _)
  refine (coin_lock (q := fun _ t₃ => t₁.owner (.file f) = none ∧
    t₃.owner = ((t₁.setOwner (.file f) (some w)).setOwner .hashTB (some w)).owner) free fun unowned => ?_).bind ?_
  · rw [Server.setOwner_owner_of_ne _ _ apart] at unowned
    exact ⟨unowned, Function.update_comm apart.symm ..⟩
  rintro _ t₃ ⟨unownedFile, same₃⟩
  have add : Coin cfg adds w (call (.hashTbAdd f)) (Restored _) t₃ := coin_call rfl fun _ _ _ same => same.trans same₃
  refine add.bind fun _ t₄ same₄ => ?_
  have unowned' : (t₁.setOwner (.file f) (some w)).owner .hashTB = none := by
    rw [Server.setOwner_owner_of_ne _ _ apart.symm]
    exact unowned
  refine (coin_give unowned' same₄).bind fun _ t₅ same₅ => ?_
  refine (coin_give unownedFile same₅).bind fun _ t₆ same₆ => ?_
  exact coin_writeNB fd _ (same₆.trans same₁)

theorem coin_fileNReadLoop (fd : Nat) (names : List Path) (n i : Nat) (holds : HoldsNone w 0 t) :
    Coin cfg adds w (fileNReadLoop cfg fd names n i) (Restored t) t := by
  induction n generalizing i t with
  | zero => exact coin_ret rfl
  | succ n ih =>
      unfold fileNReadLoop
      have top : Coin cfg adds w (call (.stackTop .null)) (Restored t) t := coin_call rfl fun _ _ _ same => same
      refine top.bind fun top t₁ same₁ => .ite (fun _ => ?_) fun _ => coin_ret same₁
      have onward {t₂ : Server W} (same : t₂.owner = t.owner) :
          Coin cfg adds w (fileNReadLoop cfg fd names n (i + 1)) (Restored t) t₂ :=
        (ih (i + 1) (holds.congr same)).mono fun _ _ later => later.trans same
      cases names[i]? with
      | none => exact coin_abort.mono fun _ _ => False.elim
      | some name =>
          refine (coin_hashGetFile _ _ ((holds.mono (Nat.zero_le 3)).congr same₁)).bind fun found t₂ same₂ => ?_
          have same₂' := same₂.trans same₁
          cases found with
          | none => exact onward same₂'
          | some f =>
              refine coin_take (holds.congr same₂') f fun t₃ unowned same₃ _ => ?_
              refine (coin_load f same₃).bind fun file t₄ same₄ => ?_
              cases fileShortenName file.abspath with
              | none => exact coin_abort.bind fun _ _ => False.elim
              | some nameSent =>
                  refine (coin_writeNB fd _ same₄).bind fun _ t₅ same₅ => ?_
                  refine (coin_writeNB fd _ same₅).bind fun _ t₆ same₆ => ?_
                  refine (coin_give unowned same₆).bind fun _ t₇ same₇ => ?_
                  have same₇' := same₇.trans same₂'
                  exact (coin_sendFile fd f (holds.congr same₇')).bind fun _ t₈ same₈ =>
                    onward (same₈.trans same₇')

theorem coin_fileNRead (fd : Nat) (fileNum : Int) (rand : Nat → Nat) (idle : ¬adds)
    (holds : HoldsNone w 0 t) : Coin cfg adds w (fileNRead cfg fd fileNum rand) (Restored t) t := by
  unfold fileNRead
  refine (coin_fileStackDefrag idle (holds.mono (Nat.zero_le 2))).bind fun _ t₁ same₁ => ?_
  refine (coin_lock (q := fun _ t₂ => t₁.owner .filestack = none ∧ t₂ = t₁.setOwner .filestack (some w))
    ((holds.congr same₁) .filestack (Nat.zero_le _)) fun unowned => ⟨unowned, rfl⟩).bind ?_
  rintro _ _ ⟨unowned, rfl⟩
  have top : Coin cfg adds w (call (.stackTop .null)) (Restored _) (t₁.setOwner .filestack (some w)) :=
    coin_call rfl fun _ _ _ same => same
  refine top.bind fun arrS t₃ same₃ => ?_
  have permute : Coin cfg adds w (arrayRandomPermutation rand arrS) (Restored _) t₃ :=
    coin_all ((lockless_arrayCopy arrS 0).bind fun _ => all_pure _)
  refine permute.bind fun names t₄ same₄ => ?_
  refine (coin_give unowned (same₄.trans same₃)).bind fun _ t₅ same₅ => ?_
  have same₅' := same₅.trans same₁
  have rest (fileNum : Int) {t₆ : Server W} (same : t₆.owner = t.owner) :
      Coin cfg adds w (do
        fileNReadLoop cfg fd names fileNum.toNat 0
        writeNB fd (.int 0)) (Restored t) t₆ := by
    refine (coin_fileNReadLoop fd names fileNum.toNat 0 (holds.congr same)).bind fun _ t₇ same₇ => ?_
    exact coin_writeNB fd _ (same₇.trans same)
  refine .ite (fun _ => ?_) fun _ => by exact rest _ same₅'
  have again : Coin cfg adds w (call (.stackTop .null)) (Restored t) t₅ :=
    coin_call rfl fun _ _ _ same => same.trans same₅'
  exact again.bind fun top t₆ same₆ => by exact rest _ same₆

theorem coin_handle (fuel fd : Nat) (r : Request) (holds : HoldsNone w 0 t) :
    Coin cfg r.writes w (handle cfg fuel fd r) (Restored t) t := by
  cases r with
  | fileRead path pid => exact coin_fileRead fd path pid holds
  | fileNRead fileNum rand => exact coin_fileNRead fd fileNum rand id holds
  | fileWrite path pid fileSize data => exact coin_fileWrite fuel fd path pid fileSize data trivial holds
  | fileAppend path pid appendSize data => exact coin_fileAppend fuel fd path pid appendSize data holds
  | fileOpen path pid => exact coin_fileOpen fd path pid holds
  | fileClose path pid => exact coin_fileClose fd path pid holds
  | fileDelete path pid => exact coin_fileDelete fd path pid holds
  | fileLock => exact coin_ret rfl
  | fileUnlock => exact coin_ret rfl
  | fileSearch path => exact (coin_fileSearch fd path holds).bind fun _ _ same => coin_ret same
  | fileInit path => exact coin_fileInit fd path holds

/-! ## Every request -/

theorem trapped_iff {r : Request} (bounded : t.store.fstack.Bounded cfg) {o : Op}
    (total : ∀ str, o = .stackGetTop str → (∃ path, t.readStr str = .ok path) ∧
      ∀ name, ∃ found, t.store.lookup cfg name = .ok found) :
    Trapped cfg r.writes w t o ↔ Reenters cfg r w t o := by
  cases o with
  | stackGetTop str =>
      obtain ⟨⟨path, read⟩, total⟩ := total str rfl
      have inside : t.store.fstack.top ≤ t.store.fstack.stack.length := by
        rw [bounded.length]
        exact bounded.top
      have step := exec_stackGetTop cfg w read
      constructor
      · rintro ⟨f, t', picked, held⟩
        rw [step, Outcome.andThen_eq_ok] at picked
        obtain ⟨⟨g, stack⟩, chosen, same⟩ := picked
        cases same
        obtain ⟨comparable, i, uppermost, -⟩ := (FileStack.getTop_eq_ok total inside).mp chosen
        exact ⟨path, i, f, read, comparable, uppermost, held⟩
      · rintro ⟨path', i, f, read', comparable, uppermost, held⟩
        cases read.symm.trans read'
        have chosen := (FileStack.getTop_eq_ok total inside).mpr ⟨comparable, i, uppermost, rfl⟩
        exact ⟨f, _, by rw [step, chosen]; rfl, held⟩
  | _ => exact Iff.rfl

/-- A request, served alone, never asks for a mutex that it holds, exactly if it comes to none of the
states of `Reenters`. -/
theorem no_relock (served : Served W cfg (fun _ _ => True) s) {r : Request} (wellFormed : r.WellFormed)
    (w : W) (fuel fd : Nat) :
    (∀ m t, (server W cfg).Visits w (handle cfg fuel fd r) s (.lock m) t → t.owner m ≠ some w) ↔
      ∀ o t, (server W cfg).Visits w (handle cfg fuel fd r) s o t → ¬Reenters cfg r w t o := by
  have holds : HoldsNone w 0 s := fun m _ => by
    rw [served.idle.unlocked m]
    nofun
  obtain ⟨coincide, -⟩ : Coin cfg r.writes w (handle cfg fuel fd r) (Restored s) s :=
    coin_handle fuel fd r holds
  have same {o : Op} {t : Server W} (visits : (server W cfg).Visits w (handle cfg fuel fd r) s o t) :
      Trapped cfg r.writes w t o ↔ Reenters cfg r w t o := by
    have bounded := ((stack_bounds served).2 w fuel fd r o t wellFormed visits).1
    refine trapped_iff bounded ?_
    rintro str rfl
    cases event_of_visits served.idle wellFormed visits with
    | @pick f t₀ midway exhausted =>
        obtain ⟨self, found⟩ := midway.alive
        exact ⟨⟨some self.abspath, Server.onFile_some _ found⟩, midway.total⟩
    | count midway settles full => exact ⟨⟨none, rfl⟩, midway.total⟩
    | calm calm => cases calm
  constructor
  · intro never o t visits reenters
    obtain ⟨o', t', visits', m, rfl, held⟩ := coincide.mpr ⟨o, t, visits, (same visits).mpr reenters⟩
    exact never m t' visits' held
  · intro never m t visits held
    obtain ⟨o', t', visits', trapped⟩ := coincide.mp ⟨_, t, visits, m, rfl, held⟩
    exact never o' t' visits' ((same visits').mp trapped)

end

/-! ## Two requests that wait for themselves -/

def locksAgain (t : Server Unit) : Op → Bool
  | .lock m => t.owner m = none
  | _ => true

/-- Evictions under a file at the top leave holes, and do not lower the top. -/
def filledStack : List Request :=
  [.fileInit [97], .fileOpen [97] 7, .fileWrite [97] 7 9 [1, 2, 3, 4, 5, 6, 7, 8, 9],
    .fileInit [98], .fileOpen [98] 7, .fileWrite [98] 7 3 [1, 2, 3], .fileAppend [98] 7 4 [4, 5, 6, 7],
    .fileInit [99], .fileOpen [99] 7, .fileWrite [99] 7 5 [1, 2, 3, 4, 5], .fileAppend [99] 7 4 [6, 7, 8, 9],
    .fileInit [100], .fileOpen [100] 7]

def createdAgain : List Request :=
  rewrittenFile ++ [.fileDelete [97] 7, .fileInit [97], .fileOpen [97] 7]

/-- A run of requests after which the last one asks for a mutex that it holds. -/
def WaitsForItself (rs : List Request) (r : Request) : Prop :=
  Served Unit smallConfig (fun _ _ => True) (reached smallConfig 5 rs) ∧ r.WellFormed ∧
    ∃ m t, (server Unit smallConfig).Visits () (handle smallConfig 5 0 r) (reached smallConfig 5 rs) (.lock m) t ∧
      t.owner m = some ()

theorem waitsForItself {rs : List Request} {r : Request} (wellFormed : ∀ r ∈ rs, r.WellFormed)
    (last : r.WellFormed) (ran : (serve smallConfig 5 0 rs (Server.initial Unit smallConfig)).isSome = true)
    (again : (server Unit smallConfig).checks locksAgain () (handle smallConfig 5 0 r)
      (reached smallConfig 5 rs) = false) : WaitsForItself rs r := by
  obtain ⟨o, t, visits, again⟩ := Machine.visits_of_checks again
  refine ⟨served_reached wellFormed (fun _ _ _ => trivial) ran, last, ?_⟩
  cases o with
  | lock m =>
      refine ⟨m, t, visits, ?_⟩
      cases owner : t.owner m with
      | none => simp [locksAgain, owner] at again
      | some u => rfl
  | _ => cases again

/-- The fourth write finds the stack full. A file that was written, deleted and created anew is picked for
eviction by its own write. -/
theorem relocked : WaitsForItself filledStack (.fileWrite [100] 7 1 [1]) ∧
    WaitsForItself createdAgain (.fileWrite [97] 7 1 [1]) :=
  ⟨waitsForItself (by simp [filledStack, Request.WellFormed]) (by simp [Request.WellFormed])
      (by decide +kernel) (by decide +kernel),
    waitsForItself (by simp [createdAgain, rewrittenFile, deletedFile, Request.WellFormed])
      (by simp [Request.WellFormed]) (by decide +kernel) (by decide +kernel)⟩

theorem no_relock_example :
    (((server Unit smallConfig).run () (handle smallConfig 5 0 (.fileWrite [99] 7 1 [9]))
      (reached smallConfig 5 thirdFile)).okAnd fun result => result.2.store.recorded = [2, 0] ∧
        result.2.store.fstack = ⟨3, 2, [some [97], some [99], none]⟩) = true ∧
    ∀ o t, (server Unit smallConfig).Visits () (handle smallConfig 5 0 (.fileWrite [99] 7 1 [9]))
      (reached smallConfig 5 thirdFile) o t → ¬Reenters smallConfig (.fileWrite [99] 7 1 [9]) () t o := by
  have once : (server Unit smallConfig).checks locksAgain () (handle smallConfig 5 0 (.fileWrite [99] 7 1 [9]))
      (reached smallConfig 5 thirdFile) = true := by decide +kernel
  have served : Served Unit smallConfig (fun _ _ => True) (reached smallConfig 5 thirdFile) :=
    served_reached (by simp [thirdFile, twoFiles, deletedFile, Request.WellFormed]) (fun _ _ _ => trivial)
      (by decide +kernel)
  refine ⟨by decide +kernel, (no_relock served (r := .fileWrite [99] 7 1 [9]) (by simp [Request.WellFormed])
    () 5 0).mp fun m t visits owned => ?_⟩
  have free := Machine.checks_visits once visits
  simp [locksAgain, owned] at free

end FileServer
