import FileServer.Proof.Sequential.Append

/-!
# Who owns a page, and how many a file has
-/

namespace FileServer
open Program

/-! ## Ownership -/

/-- Every page of the memory is on the free list or in one array of one recorded file, once. -/
theorem page_ownership {W : Type} {cfg : Config} {s : Server W}
    (served : Served W cfg (fun _ _ => True) s) (page : Nat) :
    (s.store.pages ++ s.store.ownedPages).count page = if page < s.store.pageN then 1 else 0 := by
  have ledger := served.idle.consistent.ledger
  rw [List.append_nil] at ledger
  rw [ledger.count_eq]
  by_cases inside : page < s.store.pageN
  · rw [if_pos inside]
    exact List.count_eq_one_of_mem List.nodup_range (List.mem_range.mpr inside)
  · rw [if_neg inside]
    exact List.count_eq_zero_of_not_mem fun mem => inside (List.mem_range.mp mem)

def evicting : List Request :=
  [.fileInit [97], .fileOpen [97] 7, .fileWrite [97] 7 16 (List.replicate 16 1),
    .fileInit [98], .fileOpen [98] 7, .fileWrite [98] 7 6 [1, 2, 3, 4, 5, 6]]

theorem page_ownership_example :
    ((reached smallConfig 5 evicting).store.pages ++
      (reached smallConfig 5 evicting).store.ownedPages).count 2 =
        if 2 < (reached smallConfig 5 evicting).store.pageN then 1 else 0 :=
  page_ownership (served_reached (by simp [evicting, Request.WellFormed]) (fun _ _ _ => trivial)
    (by decide +kernel)) 2

/-! ## Page counts -/

/-- The appends after which the file has as many pages as its size needs: nothing is added; or the
bytes start on a page with room and fit there or end inside a page; or they are at least two whole
pages behind a full one. -/
def AppendKeepsCount (cfg : Config) (size n : Nat) : Prop :=
  n = 0 ∨
  size % cfg.pageSize ≠ 0 ∧
    (n ≤ cfg.pageSize - size % cfg.pageSize ∨ (size + n) % cfg.pageSize ≠ 0) ∨
  size % cfg.pageSize = 0 ∧ cfg.pageSize < n ∧ n % cfg.pageSize = 0

def KeepsCount (cfg : Config) (σ : Store) : Request → Prop
  | .fileAppend path pid n _ => ∀ f file, σ.lookup cfg path = .ok (some f) →
      σ.files f = some file → clientOpenSearch file.clientsOpened pid = true →
      file.size + n ≤ cfg.serverMemorySize → AppendKeepsCount cfg file.size n
  | _ => True

theorem pagesFor_eq (cfg : Config) (size : Nat) :
    pagesFor cfg size = (size + cfg.pageSize - 1) / cfg.pageSize := by
  have positive := cfg.pageSize_pos
  have division := Nat.div_add_mod size cfg.pageSize
  have inside := Nat.mod_lt size positive
  have lift (r q : Nat) (small : r < cfg.pageSize) : (r + cfg.pageSize * q) / cfg.pageSize = q := by
    rw [Nat.add_mul_div_left _ _ positive, Nat.div_eq_of_lt small, Nat.zero_add]
  unfold pagesFor
  by_cases whole : size % cfg.pageSize = 0
  · have total : size + cfg.pageSize - 1 =
        cfg.pageSize - 1 + cfg.pageSize * (size / cfg.pageSize) := by omega
    rw [if_neg (by omega), total, lift _ _ (by omega)]
  · have total : size + cfg.pageSize - 1 =
        size % cfg.pageSize - 1 + cfg.pageSize * (size / cfg.pageSize + 1) := by
      rw [Nat.mul_add, Nat.mul_one]
      omega
    rw [if_pos (by omega), total, lift]
    exact Nat.lt_of_le_of_lt (Nat.sub_le _ _) inside

theorem pagesFor_mul_add (cfg : Config) (q r : Nat) (inside : r < cfg.pageSize) :
    pagesFor cfg (cfg.pageSize * q + r) = if r = 0 then q else q + 1 := by
  have remainder : (cfg.pageSize * q + r) % cfg.pageSize = r := by
    rw [Nat.mul_add_mod, Nat.mod_eq_of_lt inside]
  have quotient : (cfg.pageSize * q + r) / cfg.pageSize = q := by
    rw [Nat.mul_add_div cfg.pageSize_pos, Nat.div_eq_of_lt inside, Nat.add_zero]
  unfold pagesFor
  rw [remainder, quotient]
  by_cases none : r = 0
  · rw [if_pos none, if_neg (by omega)]
  · rw [if_neg none, if_pos (by omega)]

/-- The two formulas for the number of pages agree on exactly these appends. -/
theorem appendPages_eq_iff {cfg : Config} {size n : Nat} :
    appendPages cfg (pagesFor cfg size) size n = pagesFor cfg (size + n) ↔
      AppendKeepsCount cfg size n := by
  have positive := cfg.pageSize_pos
  obtain ⟨q, r, inside, rfl⟩ : ∃ q r, r < cfg.pageSize ∧ size = cfg.pageSize * q + r :=
    ⟨size / cfg.pageSize, size % cfg.pageSize, Nat.mod_lt _ positive, (Nat.div_add_mod _ _).symm⟩
  have remainder : (cfg.pageSize * q + r) % cfg.pageSize = r := by
    rw [Nat.mul_add_mod, Nat.mod_eq_of_lt inside]
  unfold appendPages AppendKeepsCount
  rw [remainder, pagesFor_mul_add cfg q r inside]
  by_cases spills : cfg.pageSize - r < n
  · -- the bytes that do not fit start on a new page
    obtain ⟨u, v, inside', rest⟩ : ∃ u v, v < cfg.pageSize ∧
        n - (cfg.pageSize - r) = cfg.pageSize * u + v :=
      ⟨_, _, Nat.mod_lt _ positive, (Nat.div_add_mod _ cfg.pageSize).symm⟩
    have quotient : (n - (cfg.pageSize - r)) / cfg.pageSize = u := by
      rw [rest, Nat.mul_add_div positive, Nat.div_eq_of_lt inside', Nat.add_zero]
    have total : cfg.pageSize * q + r + n = cfg.pageSize * (q + u + 1) + v := by
      rw [Nat.mul_add, Nat.mul_add, Nat.mul_one]
      omega
    have remainder' : (cfg.pageSize * q + r + n) % cfg.pageSize = v := by
      rw [total, Nat.mul_add_mod, Nat.mod_eq_of_lt inside']
    rw [if_pos spills, quotient, total, pagesFor_mul_add cfg _ v inside', ← total, remainder']
    by_cases whole : r = 0
    · have sum : n = cfg.pageSize * (u + 1) + v := by
        rw [Nat.mul_add, Nat.mul_one]
        omega
      have remainderN : n % cfg.pageSize = v := by
        rw [sum, Nat.mul_add_mod, Nat.mod_eq_of_lt inside']
      rw [if_pos whole, remainderN]
      by_cases ends : v = 0
      · rw [if_pos ends]
        omega
      · rw [if_neg ends]
        omega
    · rw [if_neg whole]
      by_cases ends : v = 0
      · rw [if_pos ends]
        omega
      · rw [if_neg ends]
        omega
  · rw [if_neg spills]
    by_cases whole : r = 0
    · rw [if_pos whole]
      by_cases none : n = 0
      · rw [none, Nat.add_zero, pagesFor_mul_add cfg q r inside, if_pos whole]
        omega
      · have more : pagesFor cfg (cfg.pageSize * q + r + n) = q + 1 := by
          by_cases full : n = cfg.pageSize
          · have total : cfg.pageSize * q + r + n = cfg.pageSize * (q + 1) + 0 := by
              rw [Nat.mul_add]
              omega
            rw [total, pagesFor_mul_add cfg _ 0 positive, if_pos rfl]
          · have total : cfg.pageSize * q + r + n = cfg.pageSize * q + n := by omega
            rw [total, pagesFor_mul_add cfg _ n (by omega), if_neg none]
        rw [more]
        omega
    · rw [if_neg whole]
      have same : pagesFor cfg (cfg.pageSize * q + r + n) = q + 1 := by
        by_cases full : r + n = cfg.pageSize
        · have total : cfg.pageSize * q + r + n = cfg.pageSize * (q + 1) + 0 := by
            rw [Nat.mul_add]
            omega
          rw [total, pagesFor_mul_add cfg _ 0 positive, if_pos rfl]
        · have total : cfg.pageSize * q + r + n = cfg.pageSize * q + (r + n) := by omega
          rw [total, pagesFor_mul_add cfg _ (r + n) (by omega), if_neg (by omega)]
      rw [same]
      omega

def Store.Counted (cfg : Config) (σ : Store) : Prop :=
  ∀ f ∈ σ.recorded, ∀ file, σ.files f = some file → file.pagesN = pagesFor cfg file.size

theorem counted_initial (W : Type) (cfg : Config) :
    (Server.initial W cfg).store.Counted cfg := by
  intro f mem file found
  cases found

section
variable {W : Type} {cfg : Config} {w : W} {s s' : Server W} {r : Request} {fuel fd : Nat}

theorem Store.Counted.request (counted : s.store.Counted cfg) (idle : Idle cfg s)
    (wellFormed : r.WellFormed) (keeps : KeepsCount cfg s.store r)
    (completed : (server W cfg).run w (handle cfg fuel fd r) s = .ok ((), s')) :
    s'.store.Counted cfg := by
  intro g mem file' found'
  rcases (effect_of_run idle wellFormed completed).each g mem with ⟨before, kept, -⟩ | changed
  · rw [kept] at found'
    exact counted g before file' found'
  · cases changed with
    | created here =>
        cases Option.some.inj (found'.symm.trans here)
        simp [pagesFor]
    | opened recorded found here =>
        have before := counted g recorded _ found
        cases Option.some.inj (found'.symm.trans here)
        exact before
    | closed recorded found here =>
        have before := counted g recorded _ found
        cases Option.some.inj (found'.symm.trans here)
        exact before
    | written recorded found nonempty here =>
        cases Option.some.inj (found'.symm.trans here)
        rfl
    | @appended path pid n data file pages recorded searched found opened hasPages fits total here =>
        cases Option.some.inj (found'.symm.trans here)
        have before := counted g recorded file found
        have appends := keeps g file searched found opened fits
        show file.pagesN + pages.length = pagesFor cfg (file.size + n)
        rw [total, before]
        exact appendPages_eq_iff.mpr appends

theorem Served.counted (served : Served W cfg (KeepsCount cfg) s) : s.store.Counted cfg := by
  induction served with
  | initial => exact counted_initial W cfg
  | request before wellFormed met completed ih =>
      exact ih.request before.idle wellFormed met completed

theorem length_fileChunks {mem : Nat → List UInt8} {file : MemFile}
    (sized : ∀ page, (mem page).length = cfg.pageSize) (filled : file.pages.length = file.pagesN)
    (counted : file.pagesN = pagesFor cfg file.size) :
    (fileChunks cfg mem file).flatten.length = file.size := by
  by_cases empty : file.size = 0
  · simp [fileChunks, empty]
  · have some := pagesFor_pos cfg (Nat.pos_of_ne_zero empty)
    have exactly := pagesFor_last cfg (Nat.pos_of_ne_zero empty)
    rw [← counted] at some exactly
    rw [flatten_fileChunks sized filled some empty, List.length_take,
      length_flatMap_blocks file.pages sized, exactly, filled]
    have whole := Nat.succ_mul (file.pagesN - 1) cfg.pageSize
    rw [Nat.succ_eq_add_one, Nat.sub_add_cancel some] at whole
    have short := lastPageSize_le cfg file.size
    omega

theorem fileChunks_content {σ : Store} {f : FileId} {file : MemFile} (consistent : Consistent cfg none [] σ)
    (mem : f ∈ σ.recorded) (found : σ.files f = some file) (counted : file.pagesN = pagesFor cfg file.size) :
    (fileChunks cfg σ.memPtr file).flatten = σ.content file := by
  by_cases empty : file.size = 0
  · rw [fileChunks, if_pos empty, Store.content, empty, List.take_zero, List.flatten_nil]
  have nonempty : 0 < file.size := Nat.pos_of_ne_zero empty
  have shaped := consistent.shaped f file mem found (by simp)
  have positive := pagesFor_pos cfg nonempty
  rw [flatten_fileChunks consistent.buffers shaped.filled (counted ▸ positive) empty, counted,
    pagesFor_last cfg nonempty]
  rfl

theorem page_count {f : FileId} {file : MemFile} (served : Served W cfg (KeepsCount cfg) s)
    (mem : f ∈ s.store.recorded) (found : s.store.files f = some file) :
    file.pagesN = (file.size + cfg.pageSize - 1) / cfg.pageSize ∧
      ∀ (w : W) (fd : Nat), ∃ chunks : List (List UInt8),
        (server W cfg).run w (sendFile cfg fd f) s =
          .ok ((), s.sendAll fd (.sizeT file.size :: chunks.map .bytes)) ∧
        chunks.flatten.length = file.size := by
  have counted := served.counted f mem file found
  have idle := served.idle
  refine ⟨counted.trans (pagesFor_eq cfg file.size), fun w fd => ?_⟩
  exact ⟨fileChunks cfg s.store.memPtr file, idle.run_sendFile w fd mem found,
    length_fileChunks idle.consistent.buffers
      (idle.consistent.shaped f file mem found (by simp)).filled counted⟩

end

/-- Six bytes and six more: with pages of four bytes they should take three pages. -/
def twiceSix : List Request :=
  [.fileInit [97], .fileOpen [97] 7, .fileWrite [97] 7 6 [1, 2, 3, 4, 5, 6],
    .fileAppend [97] 7 6 [7, 8, 9, 10, 11, 12]]

/-- The append takes four, and `sendFile` then sends sixteen bytes behind the size 12. -/
theorem page_count_wrong :
    Served Unit smallConfig (fun _ _ => True) (reached smallConfig 5 twiceSix) ∧
      0 ∈ (reached smallConfig 5 twiceSix).store.recorded ∧
      (reached smallConfig 5 twiceSix).store.files 0 = some ⟨[3, 2, 1, 0], 4, [97], 12, [7]⟩ ∧
      4 ≠ (12 + smallConfig.pageSize - 1) / smallConfig.pageSize ∧
      ∀ fd, (server Unit smallConfig).run () (sendFile smallConfig fd 0)
          (reached smallConfig 5 twiceSix) =
        .ok ((), (reached smallConfig 5 twiceSix).sendAll fd [.sizeT 12, .bytes [1, 2, 3, 4],
          .bytes [5, 6, 7, 8], .bytes [9, 10, 11, 12], .bytes [0, 0, 0, 0]]) := by
  have served : Served Unit smallConfig (fun _ _ => True) (reached smallConfig 5 twiceSix) :=
    served_reached (by simp [twiceSix, Request.WellFormed]) (fun _ _ _ => trivial)
      (by decide +kernel)
  have mem : 0 ∈ (reached smallConfig 5 twiceSix).store.recorded := by decide +kernel
  have found : (reached smallConfig 5 twiceSix).store.files 0 =
      some ⟨[3, 2, 1, 0], 4, [97], 12, [7]⟩ := by decide +kernel
  refine ⟨served, mem, found, by decide, fun fd => ?_⟩
  have messages : fileMessages smallConfig (reached smallConfig 5 twiceSix).store.memPtr
      ⟨[3, 2, 1, 0], 4, [97], 12, [7]⟩ = [.sizeT 12, .bytes [1, 2, 3, 4],
          .bytes [5, 6, 7, 8], .bytes [9, 10, 11, 12], .bytes [0, 0, 0, 0]] := by decide +kernel
  rw [← messages]
  exact served.idle.run_sendFile () fd mem found

def onceSix : List Request :=
  [.fileInit [97], .fileOpen [97] 7, .fileWrite [97] 7 6 [1, 2, 3, 4, 5, 6]]

/-- The appended bytes start on a page with room and end inside the next one. -/
def onceEleven : List Request := onceSix ++ [.fileAppend [97] 7 5 [7, 8, 9, 10, 11]]

instance (cfg : Config) (size n : Nat) : Decidable (AppendKeepsCount cfg size n) :=
  inferInstanceAs (Decidable (_ ∨ _ ∨ _))

def keepsCountTest (cfg : Config) (σ : Store) : Request → Bool
  | .fileAppend path _ n _ => match σ.lookup cfg path with
      | .ok (some f) => (σ.files f).all fun file => AppendKeepsCount cfg file.size n
      | _ => true
  | _ => true

theorem keepsCount_of_test (cfg : Config) (σ : Store) (r : Request) (passes : keepsCountTest cfg σ r = true) :
    KeepsCount cfg σ r := by
  cases r with
  | fileAppend path pid n data =>
      intro f file searched found _ _
      simp only [keepsCountTest, searched, found, Option.all_some] at passes
      exact of_decide_eq_true passes
  | _ => trivial

theorem page_count_example : ∃ chunks : List (List UInt8),
    (server Unit smallConfig).run () (sendFile smallConfig 0 0) (reached smallConfig 5 onceEleven) =
        .ok ((), (reached smallConfig 5 onceEleven).sendAll 0 (.sizeT 11 :: chunks.map .bytes)) ∧
      chunks.flatten.length = 11 := by
  have found : (reached smallConfig 5 onceEleven).store.files 0 = some ⟨[3, 2, 1], 3, [97], 11, [7]⟩ := by
    decide +kernel
  have traced : Traced Unit smallConfig (KeepsCount smallConfig) (fun _ _ _ _ => ()) () _
      (reached smallConfig 5 onceEleven) :=
    traced_reached (keepsCountTest smallConfig) (keepsCount_of_test smallConfig)
      (by simp [onceEleven, onceSix, Request.WellFormed]) (by decide +kernel)
  exact (page_count traced.served (by decide +kernel) found).2 () 0

end FileServer
