import FileServer.Proof.Arithmetic
import FileServer.Proof.Sequential.Rules
import FileServer.Blocks

/-!
# Moving bytes between requests and pages

Exact runs of the loops that fill and send the pages of one file.
-/

namespace FileServer
open Program

/-! ## Writing -/

section
variable {W : Type} {cfg : Config} {w : W} {s : Server W} {f : FileId} {file : MemFile}

namespace Server

def setMem (s : Server W) (mem : Nat → List UInt8) : Server W :=
  s.setStore { s.store with memPtr := mem }

@[simp] theorem setMem_files (s : Server W) (mem : Nat → List UInt8) :
    (s.setMem mem).store.files = s.store.files := rfl
@[simp] theorem setMem_memPtr (s : Server W) (mem : Nat → List UInt8) :
    (s.setMem mem).store.memPtr = mem := rfl
@[simp] theorem setMem_owner (s : Server W) (mem : Nat → List UInt8) :
    (s.setMem mem).owner = s.owner := rfl
@[simp] theorem setMem_self (s : Server W) : s.setMem s.store.memPtr = s := rfl
@[simp] theorem setMem_setMem (s : Server W) (mem mem' : Nat → List UInt8) :
    (s.setMem mem).setMem mem' = s.setMem mem' := rfl

end Server

structure Writable (cfg : Config) (s : Server W) (f : FileId) (file : MemFile) : Prop where
  found : s.store.files f = some file
  nodup : file.pages.Nodup
  inMemory : ∀ page ∈ file.pages, page < s.store.pageN
  sized : ∀ page, (s.store.memPtr page).length = cfg.pageSize

theorem Writable.setMem (writable : Writable cfg s f file) {mem : Nat → List UInt8}
    (sized : ∀ page, (mem page).length = cfg.pageSize) : Writable cfg (s.setMem mem) f file :=
  { writable with sized := sized }

theorem memcpy_eq_ok {page off size : Nat} {input : List UInt8}
    (inMemory : page < s.store.pageN) (enough : size ≤ input.length)
    (inside : off + size ≤ (s.store.memPtr page).length) :
    s.memcpy page off input size = .ok (s.setMem (Function.update s.store.memPtr page
      (overwrite (s.store.memPtr page) off (input.take size)))) := by
  have safe : ¬(s.store.pageN ≤ page ∨ size ≠ 0 ∧ ((off : Int) < 0 ∨
      ((s.store.memPtr page).length : Int) < off + size)) := by omega
  dsimp only [Server.memcpy]
  rw [if_neg (Nat.not_lt.mpr enough), if_neg safe]
  simp [Server.setMem, Server.setStore, overwrite, List.length_take_of_le enough]

theorem run_addPageToMem (w : W) (i off size : Nat) (input : List UInt8)
    (writable : Writable cfg s f file) (bound : i < file.pages.length)
    (inside : off + size ≤ cfg.pageSize) (enough : size ≤ input.length) : ∃ mem, Wrote cfg.pageSize file.pages (i * cfg.pageSize + off) (input.take size)
        s.store.memPtr mem ∧
      (server W cfg).run w (addPageToMem cfg input f i size off) s = .ok (0, s.setMem mem) := by
  have isPage : file.pages[i] ∈ file.pages := List.getElem_mem bound
  have found : file.pages[i]? = some file.pages[i] := List.getElem?_eq_getElem bound
  have small := cfg.pageSize_lt
  refine ⟨_, Wrote.block writable.nodup found writable.sized ?_, ?_⟩
  · rw [List.length_take_of_le enough]
    exact inside
  have room : sizeT (cfg.pageSize - off) = cfg.pageSize - off := by
    rw [← Int.ofNat_sub (by omega), sizeT_of_small (by omega)]
  have fits : ¬(sizeT (cfg.pageSize - off) < size) := by omega
  have copied := memcpy_eq_ok (s := s) (writable.inMemory _ isPage) enough
    (by rw [writable.sized]; exact inside)
  have step : Server.exec cfg w (.memcpy file.pages[i] off input size) s =
      .ok ((), s.setMem (Function.update s.store.memPtr file.pages[i]
        (overwrite (s.store.memPtr file.pages[i]) off (input.take size)))) := by
    simp only [Server.exec, copied, Outcome.andThen_ok]
  unfold addPageToMem
  rw [if_neg fits, Machine.run_bind_of (run_load writable.found), if_neg (by omega)]
  simp only [Int.toNat_natCast, found]
  rw [Machine.run_bind_of ((run_call _).trans step)]
  rfl

theorem run_addPageToMem_out (w : W) (i offset : Int) (size : Nat) (input : List UInt8)
    (found : s.store.files f = some file) (small : size ≤ sizeT (cfg.pageSize - offset))
    (out : 0 ≤ i → file.pages[i.toNat]? = none) :
    (server W cfg).run w (addPageToMem cfg input f i size offset) s = .fault .pageIndex := by
  unfold addPageToMem
  rw [if_neg (Nat.not_lt.mpr small), Machine.run_bind_of (run_load found)]
  by_cases negative : i < 0
  · rw [if_pos negative]
    rfl
  · rw [if_neg negative]
    simp only [out (Int.not_lt.mp negative)]
    rfl

theorem run_writePages (w : W) (n toWrite : Nat) (input : List UInt8)
    (writable : Writable cfg s f file) (bound : toWrite + n ≤ file.pages.length) (enough : n * cfg.pageSize ≤ input.length) :
    ∃ mem, Wrote cfg.pageSize file.pages (toWrite * cfg.pageSize) (input.take (n * cfg.pageSize))
        s.store.memPtr mem ∧
      (server W cfg).run w (writePages cfg f n toWrite input) s =
        .ok (input.drop (n * cfg.pageSize), s.setMem mem) := by
  induction n generalizing s toWrite input with
  | zero =>
      refine ⟨s.store.memPtr, ?_, ?_⟩
      · simpa using Wrote.refl file.pages (toWrite * cfg.pageSize) writable.sized
      · simp [writePages]
  | succ n ih =>
      have more : cfg.pageSize + n * cfg.pageSize ≤ input.length := by
        rw [Nat.add_comm, ← Nat.succ_mul]
        exact enough
      obtain ⟨mem₁, wrote₁, run₁⟩ := run_addPageToMem w toWrite 0 cfg.pageSize input writable
        (by omega) (by omega) (by omega)
      obtain ⟨mem₂, wrote₂, run₂⟩ := ih (toWrite + 1) (input.drop cfg.pageSize)
        (writable.setMem wrote₁.sized) (by omega) (by rw [List.length_drop]; omega)
      refine ⟨mem₂, ?_, ?_⟩
      · rw [Nat.add_zero] at wrote₁
        have start : toWrite * cfg.pageSize ≤ file.pages.length * cfg.pageSize :=
          Nat.mul_le_mul_right _ (by omega)
        rw [Nat.succ_mul, Nat.add_comm (n * cfg.pageSize), List.take_add]
        apply wrote₁.trans writable.sized start
        rw [List.length_take_of_le (by omega), ← Nat.succ_mul]
        exact wrote₂
      · unfold writePages
        rw [Int.natCast_zero] at run₁
        rw [Machine.run_bind_of run₁, run₂, List.drop_drop, Nat.succ_mul,
          Nat.add_comm (n * cfg.pageSize)]
        rfl

theorem lastPageSize_le (cfg : Config) (size : Nat) : lastPageSize cfg size ≤ cfg.pageSize := by
  unfold lastPageSize
  split
  · exact Nat.le_refl _
  · exact Nat.le_of_lt (Nat.mod_lt _ cfg.pageSize_pos)

theorem pagesFor_le (cfg : Config) (size : Nat) : pagesFor cfg size ≤ size / cfg.pageSize + 1 := by
  unfold pagesFor
  split
  · exact Nat.le_refl _
  · exact Nat.le_succ _

theorem pagesFor_zero (cfg : Config) : pagesFor cfg 0 = 0 := by
  simp [pagesFor]

theorem pagesFor_pos {size : Nat} (cfg : Config) (nonempty : 0 < size) : 0 < pagesFor cfg size := by
  have division := Nat.div_add_mod size cfg.pageSize
  unfold pagesFor
  split
  · exact Nat.succ_pos _
  · rename_i whole
    rw [Nat.eq_zero_of_not_pos whole] at division
    by_contra none
    rw [Nat.eq_zero_of_not_pos none] at division
    omega

theorem pagesFor_last {size : Nat} (cfg : Config) (nonempty : 0 < size) :
    (pagesFor cfg size - 1) * cfg.pageSize + lastPageSize cfg size = size := by
  have division := Nat.div_add_mod size cfg.pageSize
  rw [Nat.mul_comm] at division
  have some := pagesFor_pos cfg nonempty
  unfold pagesFor at *
  unfold lastPageSize
  by_cases whole : size % cfg.pageSize = 0
  · rw [if_neg (by omega)] at some ⊢
    have step := Nat.succ_mul (size / cfg.pageSize - 1) cfg.pageSize
    rw [Nat.succ_eq_add_one, Nat.sub_add_cancel some] at step
    rw [if_pos whole]
    omega
  · rw [if_pos (by omega), if_neg whole, Nat.add_sub_cancel]
    exact division

theorem run_writeData (w : W) {data : List UInt8} (writable : Writable cfg s f file)
    (nonempty : 0 < data.length) (pagesN : file.pagesN = pagesFor cfg data.length)
    (filled : file.pages.length = file.pagesN) : ∃ mem₁ mem rest,
      (server W cfg).run w (writePages cfg f (file.pagesN - 1) 0 data) s =
          .ok (rest, s.setMem mem₁) ∧
        (server W cfg).run w (addPageToMem cfg rest f (file.pagesN - 1 : Nat)
            (lastPageSize cfg data.length) 0) (s.setMem mem₁) = .ok (0, s.setMem mem) ∧
        Writable cfg (s.setMem mem₁) f file ∧
        Wrote cfg.pageSize file.pages 0 data s.store.memPtr mem := by
  have last := pagesFor_last cfg nonempty
  have some := pagesFor_pos cfg nonempty
  rw [← pagesN] at last some
  have short := lastPageSize_le cfg data.length
  obtain ⟨mem₁, wrote₁, run₁⟩ := run_writePages w (file.pagesN - 1) 0 data writable
    (by omega) (by omega)
  obtain ⟨mem, wrote, run⟩ := run_addPageToMem w (file.pagesN - 1) 0 (lastPageSize cfg data.length)
    (data.drop ((file.pagesN - 1) * cfg.pageSize)) (writable.setMem wrote₁.sized)
    (by omega) (by omega) (by rw [List.length_drop]; omega)
  refine ⟨mem₁, mem, _, run₁, run, writable.setMem wrote₁.sized, ?_⟩
  have rest : ((data.drop ((file.pagesN - 1) * cfg.pageSize)).take (lastPageSize cfg data.length)) =
      data.drop ((file.pagesN - 1) * cfg.pageSize) :=
    List.take_of_length_le (by rw [List.length_drop]; omega)
  rw [rest] at wrote
  rw [Nat.zero_mul] at wrote₁
  have joined := wrote₁.trans writable.sized (Nat.zero_le _) (by
    rw [List.length_take_of_le (by omega), Nat.zero_add]
    exact wrote)
  rwa [List.take_append_drop] at joined

/-! ## Appending -/

/-- How many pages `fileAppend` wants for a file that has `k` of them. -/
def appendPages (cfg : Config) (k size n : Nat) : Nat :=
  if cfg.pageSize - size % cfg.pageSize < n then
    k + (n - (cfg.pageSize - size % cfg.pageSize)) / cfg.pageSize + 1
  else k

theorem bytesAvailable_eq (cfg : Config) (size : Nat) :
    cInt (cfg.pageSize - size % cfg.pageSize : Nat) = (cfg.pageSize - size % cfg.pageSize : Nat) := by
  have small := cfg.pageSize_lt
  apply cInt_of_small <;> omega

theorem bytesOverflow_eq {n a : Nat} (small : n < 2 ^ 31) (small' : a < 2 ^ 31) :
    cInt (sizeT (n - a)) = n - a := by
  rw [cInt_sizeT]
  apply cInt_of_small <;> omega

theorem append_div {cfg : Config} {size n : Nat}
    (spills : cfg.pageSize - size % cfg.pageSize < n) : (size + n) / cfg.pageSize =
      size / cfg.pageSize + 1 + (n - (cfg.pageSize - size % cfg.pageSize)) / cfg.pageSize := by
  have division := Nat.div_add_mod size cfg.pageSize
  have inside := Nat.mod_lt size cfg.pageSize_pos
  have whole := Nat.mul_succ cfg.pageSize (size / cfg.pageSize)
  have total : size + n = n - (cfg.pageSize - size % cfg.pageSize) +
      cfg.pageSize * (size / cfg.pageSize + 1) := by
    rw [← Nat.succ_eq_add_one, whole]
    omega
  rw [total, Nat.add_mul_div_left _ _ cfg.pageSize_pos]
  omega

theorem appendPages_le {cfg : Config} {k size : Nat} (n : Nat) (few : k ≤ size / cfg.pageSize + 1) :
    appendPages cfg k size n ≤ (size + n) / cfg.pageSize + 1 := by
  unfold appendPages
  split
  · rename_i spills
    rw [append_div spills]
    exact Nat.add_le_add_right (Nat.add_le_add_right few _) 1
  · have more : size / cfg.pageSize ≤ (size + n) / cfg.pageSize :=
      Nat.div_le_div_right (Nat.le_add_right _ _)
    omega

theorem le_appendPages (cfg : Config) (k size n : Nat) : k ≤ appendPages cfg k size n := by
  unfold appendPages
  split
  · rw [Nat.add_assoc]
    exact Nat.le_add_right _ _
  · exact Nat.le_refl _

theorem newPageN_eq {cfg : Config} {k size n : Nat} (few : k ≤ size / cfg.pageSize + 1)
    (fits : size + n ≤ cfg.serverMemorySize) :
    (if (0 : Int) < n - (cfg.pageSize - size % cfg.pageSize : Nat) then
      cInt (k + sizeT (n - (cfg.pageSize - size % cfg.pageSize : Nat)) / cfg.pageSize + 1 : Nat)
      else k) = appendPages cfg k size n := by
  have limit := cfg.serverMemorySize_le
  have bound := appendPages_le n few
  have whole := Nat.div_le_self (size + n) cfg.pageSize
  unfold appendPages at *
  by_cases spills : cfg.pageSize - size % cfg.pageSize < n
  · rw [if_pos spills] at bound
    rw [if_pos spills, if_pos (by omega), ← Int.ofNat_sub (Nat.le_of_lt spills),
      sizeT_of_small (by omega)]
    generalize k + (n - (cfg.pageSize - size % cfg.pageSize)) / cfg.pageSize + 1 = total at *
    apply cInt_of_small <;> omega
  · rw [if_neg spills, if_neg (by omega)]

theorem run_appendData {k size n : Nat} {data : List UInt8} (writable : Writable cfg s f file)
    (some : 0 < k) (pagesN : file.pagesN = appendPages cfg k size n)
    (filled : file.pages.length = file.pagesN) (length : data.length = n) (small : n < 2 ^ 31) :
    ∃ mem, Wrote cfg.pageSize file.pages ((k - 1) * cfg.pageSize + size % cfg.pageSize) data
        s.store.memPtr mem ∧
      (server W cfg).run w (appendData cfg f k size n (cfg.pageSize - size % cfg.pageSize : Nat)
        (n - (cfg.pageSize - size % cfg.pageSize : Nat)) data) s = .ok ((), s.setMem mem) := by
  have smallPage := cfg.pageSize_lt
  have partial_lt : size % cfg.pageSize < cfg.pageSize := Nat.mod_lt _ cfg.pageSize_pos
  have offset : cInt ((size % cfg.pageSize : Nat)) = (size % cfg.pageSize : Nat) := by
    apply cInt_of_small <;> omega
  have index : (k : Int) - 1 = (k - 1 : Nat) := by omega
  obtain ⟨avail, room⟩ : ∃ avail, cfg.pageSize - size % cfg.pageSize = avail := ⟨_, rfl⟩
  rw [appendPages, room] at pagesN
  rw [room]
  subst length
  unfold appendData
  rw [if_neg (by omega), offset, index]
  simp only [sizeT_of_small (n := avail) (by omega), List.take_length]
  by_cases spills : avail < data.length
  · rw [if_pos spills] at pagesN
    rw [if_pos spills, sizeT_of_small (by omega), ← Int.ofNat_sub (Nat.le_of_lt spills),
      sizeT_of_small (by omega)]
    -- the rest of the last page, `q` whole pages, and `t` bytes on the page after them
    obtain ⟨q, quotient⟩ : ∃ q, (data.length - avail) / cfg.pageSize = q := ⟨_, rfl⟩
    obtain ⟨t, remainder⟩ : ∃ t, (data.length - avail) % cfg.pageSize = t := ⟨_, rfl⟩
    have t_lt : t < cfg.pageSize := remainder ▸ Nat.mod_lt _ cfg.pageSize_pos
    have total : data.length = avail + q * cfg.pageSize + t := by
      have division := Nat.div_add_mod (data.length - avail) cfg.pageSize
      rw [quotient, remainder, Nat.mul_comm] at division
      omega
    rw [quotient] at pagesN
    have loops : file.pagesN - 1 - k = q := by omega
    have last : max k (file.pagesN - 1) = k + q := by omega
    have position : (k - 1) * cfg.pageSize + size % cfg.pageSize + avail = k * cfg.pageSize := by
      have whole := Nat.succ_mul (k - 1) cfg.pageSize
      rw [Nat.succ_eq_add_one, Nat.sub_add_cancel some] at whole
      omega
    obtain ⟨mem₁, wrote₁, run₁⟩ := run_addPageToMem w (k - 1) (size % cfg.pageSize) avail data
      writable (by omega) (by omega) (by omega)
    obtain ⟨mem₂, wrote₂, run₂⟩ := run_writePages w q k (data.drop avail)
      (writable.setMem wrote₁.sized) (by omega) (by rw [List.length_drop]; omega)
    obtain ⟨mem₃, wrote₃, run₃⟩ := run_addPageToMem w (k + q) 0 t
      ((data.drop avail).drop (q * cfg.pageSize)) (writable.setMem wrote₂.sized)
      (by omega) (by omega) (by simp only [List.length_drop]; omega)
    refine ⟨mem₃, ?_, ?_⟩
    · have length₁ : (data.take avail).length = avail := List.length_take_of_le (by omega)
      have length₂ : ((data.drop avail).take (q * cfg.pageSize)).length = q * cfg.pageSize :=
        List.length_take_of_le (by rw [List.length_drop]; omega)
      have inside : k * cfg.pageSize + q * cfg.pageSize ≤ file.pages.length * cfg.pageSize := by
        rw [← Nat.add_mul]
        exact Nat.mul_le_mul_right _ (by omega)
      have split : data.take avail ++ (data.drop avail).take (q * cfg.pageSize) ++
          ((data.drop avail).drop (q * cfg.pageSize)).take t = data := by
        have ends : ((data.drop avail).drop (q * cfg.pageSize)).length ≤ t := by
          simp only [List.length_drop]
          omega
        rw [List.take_of_length_le ends, List.append_assoc, List.take_append_drop,
          List.take_append_drop]
      have first := wrote₁.trans writable.sized (by omega) (by rw [length₁, position]; exact wrote₂)
      have joined := first.trans writable.sized (by omega)
        (by
          rw [List.length_append, length₁, length₂, ← Nat.add_assoc, position, ← Nat.add_mul]
          exact wrote₃)
      rwa [split] at joined
    · rw [Int.natCast_zero] at run₃
      have loaded₁ : (server W cfg).run w (load f) (s.setMem mem₁) = .ok (file, s.setMem mem₁) :=
        run_load (writable.setMem wrote₁.sized).found
      rw [Machine.run_bind_of run₁, Machine.run_bind_of loaded₁, loops, last,
        Int.toNat_natCast, Machine.run_bind_of run₂, if_pos (by omega), remainder,
        Server.setMem_setMem, Machine.run_bind_of run₃]
      rfl
  · rw [if_neg spills] at pagesN
    have whole : cInt data.length = data.length := by
      apply cInt_of_small <;> omega
    have loops : file.pagesN - 1 - k = 0 := by omega
    have fits : size % cfg.pageSize + data.length ≤ cfg.pageSize := by
      rw [Nat.not_lt, ← room] at spills
      exact Nat.add_le_of_le_sub' (Nat.le_of_lt partial_lt) spills
    obtain ⟨mem, wrote, run⟩ := run_addPageToMem w (k - 1) (size % cfg.pageSize) data.length data
      writable (by omega) fits (Nat.le_refl _)
    refine ⟨mem, ?_, ?_⟩
    · rwa [List.take_length] at wrote
    · have loaded : (server W cfg).run w (load f) (s.setMem mem) = .ok (file, s.setMem mem) :=
        run_load (writable.setMem wrote.sized).found
      rw [if_neg spills, whole, sizeT_of_small (Nat.lt_of_lt_of_le small (by decide)),
        Machine.run_bind_of run,
        Machine.run_bind_of loaded, loops]
      show (server W cfg).run w (if k ≠ file.pagesN then _ else _) _ = _
      rw [if_neg (by omega)]
      rfl

theorem run_appendData_empty (w : W) {n : Nat} {data : List UInt8}
    (found : s.store.files f = some file) (small : n < 2 ^ 31) :
    (server W cfg).run w (appendData cfg f 0 0 n (cfg.pageSize : Nat) (n - (cfg.pageSize : Nat))
      data) s = .fault .pageIndex := by
  have smallPage := cfg.pageSize_lt
  have page : sizeT (cfg.pageSize : Nat) = cfg.pageSize := sizeT_of_small (by omega)
  have offset : cInt ((0 % cfg.pageSize : Nat)) = 0 := by
    rw [Nat.zero_mod]
    exact cInt_of_small (by decide) (by decide)
  have length : cInt n = n := by
    apply cInt_of_small <;> omega
  obtain ⟨firstAdd, first⟩ : ∃ firstAdd, (if sizeT (cfg.pageSize : Nat) < n then
      ((cfg.pageSize : Nat) : Int) else cInt n) = firstAdd := ⟨_, rfl⟩
  have enough : sizeT firstAdd ≤ sizeT (cfg.pageSize - 0) := by
    rw [Int.sub_zero, page, ← first, page]
    by_cases spills : cfg.pageSize < n
    · rw [if_pos spills]
      exact Nat.le_of_eq page
    · rw [if_neg spills, length, sizeT_of_small (by omega)]
      exact Nat.not_lt.mp spills
  have failed := run_addPageToMem_out w ((0 : Nat) - 1) 0 (sizeT firstAdd) (data.take n)
    found enough (fun h => absurd h (by decide))
  unfold appendData
  rw [if_neg (by omega), first, offset, Machine.run_bind, failed]
  rfl

/-! ## Sending -/

def Server.sendAll (s : Server W) (fd : Nat) (msgs : List Msg) : Server W :=
  { s with sent := s.sent ++ msgs.map fun msg => (fd, msg) }

theorem Server.send_sendAll (s : Server W) (fd : Nat) (msg : Msg) (msgs : List Msg) :
    (s.send fd msg).sendAll fd msgs = s.sendAll fd (msg :: msgs) := by
  simp [send, sendAll]

theorem Server.sendAll_sendAll (s : Server W) (fd : Nat) (msgs msgs' : List Msg) :
    (s.sendAll fd msgs).sendAll fd msgs' = s.sendAll fd (msgs ++ msgs') := by
  simp [sendAll]

def fileChunks (cfg : Config) (mem : Nat → List UInt8) (file : MemFile) : List (List UInt8) :=
  if file.size = 0 then []
  else (file.pages.take (file.pagesN - 1)).map mem ++
    (file.pages.drop (file.pagesN - 1)).map fun page =>
      (mem page).take (lastPageSize cfg file.size)

def fileMessages (cfg : Config) (mem : Nat → List UInt8) (file : MemFile) : List Msg :=
  .sizeT file.size :: (fileChunks cfg mem file).map .bytes

theorem exec_memRead (cfg : Config) (w : W) {page size : Nat} (inMemory : page < s.store.pageN)
    (enough : size ≤ (s.store.memPtr page).length) :
    Server.exec cfg w (.memRead page size) s = .ok ((s.store.memPtr page).take size, s) := by
  have safe : ¬(s.store.pageN ≤ page ∨ (s.store.memPtr page).length < size) := by omega
  simp only [Server.exec]
  rw [if_neg safe]

theorem run_sendPages (w : W) (fd n i : Nat) (writable : Writable cfg s f file)
    (bound : i + n ≤ file.pages.length) :
    (server W cfg).run w (sendPages cfg fd f n i) s =
      .ok ((), s.sendAll fd (((file.pages.drop i).take n).map fun page =>
        .bytes (s.store.memPtr page))) := by
  induction n generalizing s i with
  | zero => simp [sendPages, Server.sendAll]
  | succ n ih =>
      have here : i < file.pages.length := by omega
      have found : file.pages[i]? = some file.pages[i] := List.getElem?_eq_getElem here
      have isPage : file.pages[i] ∈ file.pages := List.getElem_mem here
      have sized := writable.sized file.pages[i]
      have read := (run_call _).trans
        (exec_memRead cfg w (writable.inMemory _ isPage) (Nat.le_of_eq sized.symm))
      have rest := ih (s := s.send fd (.bytes (s.store.memPtr file.pages[i]))) (i + 1)
        { writable with } (by omega)
      unfold sendPages
      rw [Machine.run_bind_of (run_load writable.found)]
      simp only [found]
      rw [Machine.run_bind_of read, Machine.run_bind_of (run_writeNB fd _), ← sized,
        List.take_length, rest, Server.send_sendAll, List.drop_eq_getElem_cons here,
        List.take_succ_cons, List.map_cons]
      rfl

theorem run_sendFile (w : W) (fd : Nat) (writable : Writable cfg s f file)
    (free : s.owner (.file f) = none) (filled : file.pages.length = file.pagesN)
    (ready : file.size ≠ 0 → 0 < file.pagesN) :
    (server W cfg).run w (sendFile cfg fd f) s =
      .ok ((), s.sendAll fd (fileMessages cfg s.store.memPtr file)) := by
  have live : s.Live (.file f) := by simp [Server.Live, writable.found]
  obtain ⟨t, locked⟩ : ∃ t, s.setOwner (.file f) (some w) = t := ⟨_, rfl⟩
  have writable' : Writable cfg t f file := by
    rw [← locked]
    exact { writable with }
  have release (msgs : List Msg) :
      (server W cfg).run w (unlock (.file f)) (t.sendAll fd msgs) = .ok ((), s.sendAll fd msgs) := by
    have live' : (t.sendAll fd msgs).Live (.file f) := by
      simp [Server.Live, Server.sendAll, writable'.found]
    rw [run_unlock live', ← locked]
    exact congrArg (fun s' => Outcome.ok ((), s'))
      (Server.setOwner_release (s.sendAll fd msgs) (some w) free)
  unfold sendFile
  rw [Machine.run_bind_of (run_lock live free), locked,
    Machine.run_bind_of (run_load writable'.found), Machine.run_bind_of (run_writeNB fd _)]
  by_cases empty : file.size = 0
  · have messages : fileMessages cfg s.store.memPtr file = [.sizeT file.size] := by
      simp [fileMessages, fileChunks, empty]
    rw [messages, if_neg (not_not.mpr empty)]
    exact release [.sizeT file.size]
  · have some := ready empty
    have here : file.pagesN - 1 < file.pages.length := by omega
    have found : file.pages[file.pagesN - 1]? = Option.some file.pages[file.pagesN - 1] :=
      List.getElem?_eq_getElem here
    have isPage : file.pages[file.pagesN - 1] ∈ file.pages := List.getElem_mem here
    have sized := writable'.sized file.pages[file.pagesN - 1]
    have short := lastPageSize_le cfg file.size
    have rest : file.pages.drop (file.pagesN - 1) = [file.pages[file.pagesN - 1]] := by
      rw [List.drop_eq_getElem_cons here, List.drop_eq_nil_of_le (by omega)]
    have whole := run_sendPages w fd (file.pagesN - 1) 0 (s := t.send fd (.sizeT file.size))
      { writable' with } (by omega)
    rw [Server.send_sendAll, List.drop_zero] at whole
    obtain ⟨t', sentPages⟩ : ∃ t', t.sendAll fd (.sizeT file.size ::
        (file.pages.take (file.pagesN - 1)).map fun page => .bytes (t.store.memPtr page)) = t' :=
      ⟨_, rfl⟩
    have read : Server.exec cfg w (.memRead file.pages[file.pagesN - 1]
        (lastPageSize cfg file.size)) t' = .ok ((t.store.memPtr file.pages[file.pagesN - 1]).take
          (lastPageSize cfg file.size), t') := by
      rw [← sentPages]
      exact exec_memRead cfg w (writable'.inMemory _ isPage) (sized ▸ short)
    rw [if_pos empty, Machine.run_bind_of whole]
    simp only [found]
    rw [Server.send_store, sentPages, Machine.run_bind_of ((run_call _).trans read),
      Machine.run_bind_of (run_writeNB fd _), ← sentPages]
    have messages : fileMessages cfg s.store.memPtr file = .sizeT file.size ::
        ((file.pages.take (file.pagesN - 1)).map (fun page => .bytes (t.store.memPtr page)) ++
          [.bytes ((t.store.memPtr file.pages[file.pagesN - 1]).take
            (lastPageSize cfg file.size))]) := by
      rw [← locked]
      simp only [fileMessages, fileChunks, if_neg empty, rest, List.map_append, List.map_map,
        Function.comp_def, List.map_cons, List.map_nil, Server.setOwner_store]
    have all := release (fileMessages cfg s.store.memPtr file)
    conv at all =>
      lhs
      rw [messages, ← List.cons_append, ← Server.sendAll_sendAll]
    exact all

theorem flatten_fileChunks {mem : Nat → List UInt8} (sized : ∀ page, (mem page).length = cfg.pageSize)
    (filled : file.pages.length = file.pagesN) (some : 0 < file.pagesN) (nonempty : file.size ≠ 0) :
    (fileChunks cfg mem file).flatten = (file.pages.flatMap mem).take
      ((file.pagesN - 1) * cfg.pageSize + lastPageSize cfg file.size) := by
  have here : file.pagesN - 1 < file.pages.length := by omega
  have rest : file.pages.drop (file.pagesN - 1) = [file.pages[file.pagesN - 1]] := by
    rw [List.drop_eq_getElem_cons here, List.drop_eq_nil_of_le (by omega)]
  have front := length_flatMap_blocks (file.pages.take (file.pagesN - 1)) sized
  rw [List.length_take_of_le (Nat.le_of_lt here)] at front
  have split : file.pages.flatMap mem = (file.pages.take (file.pagesN - 1)).flatMap mem ++
      mem file.pages[file.pagesN - 1] := by
    conv_lhs => rw [← List.take_append_drop (file.pagesN - 1) file.pages, rest]
    rw [List.flatMap_append, List.flatMap_singleton]
  rw [fileChunks, if_neg nonempty, List.flatten_append, ← List.flatMap_def, rest, split, ← front,
    List.take_length_add_append]
  simp

end

end FileServer
