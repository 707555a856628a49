import HyperKV.Htable.Load
import HyperKV.Htable.ProbeIndex
import HyperKV.OpenAddressing.Agrees
import HyperKV.Outcome.Same

open Outcome OpenAddressing

namespace hyperkv

/-! ## In tables of up to 46341 slots nothing overflows -/

theorem hash_func_small (key : CStr) {size i : Nat} (hsize : size ≤ 46341) (hi : i < size) :
    hash_func machine key size i = hash_func unbounded key size i := by
  have hpos : 0 < size := by omega
  obtain ⟨⟨hlow, hhash⟩, hstep, hhigh⟩ := hash_bounds key hpos
  have hproduct : (i : Int) * sdbm key size ≤ 46340 * 46340 :=
    Int.mul_le_mul (by omega) (by omega) hstep (by omega)
  have hnonneg : 0 ≤ (i : Int) * sdbm key size := Int.mul_nonneg (by omega) hstep
  unfold hash_func
  dsimp only [machine, unbounded, IntArith.reduce]
  rw [int32_of_bounds (x := i * sdbm key size) (by omega) (by omega),
    int32_of_bounds (by omega) (by omega)]

theorem load_small {used : Int} {size : Nat} (hlow : 0 ≤ used) (hhigh : used ≤ size)
    (hsize : size ≤ 46341) :
    load machine used size = load unbounded used size := by
  unfold load
  dsimp only [machine, unbounded, IntArith.reduce]
  rw [int32_of_bounds (by omega) (by omega)]

theorem scheme_agrees {α : Type} (key : α → CStr) (checks : Bool) :
    (scheme unbounded key checks).Agrees (scheme machine key checks) 46341 where
  key := rfl
  checks := rfl
  path hn hi := hash_func_small _ hn hi
  count hlow hhigh := int32_of_bounds (by omega) (by omega)
  grow {used n} hlow hhigh hn := by
    change resize_up_size machine used n = resize_up_size unbounded used n
    unfold resize_up_size
    rw [load_small hlow hhigh hn]
    dsimp only [machine, unbounded, IntArith.reduce]
    rw [int32_of_bounds (by omega) (by omega)]
  shrink {used n} hlow hhigh hn := by
    change resize_down_size machine used n = resize_down_size unbounded used n
    unfold resize_down_size
    rw [load_small hlow hhigh hn]
  capacity := rfl

/-! ## Sizes against insertions -/

/-- What `k` insertions leave a table at. -/
def Modest (k : Nat) (used : Int) (n : Nat) : Prop := used ≤ k ∧ 71 * n ≤ 400 * k + 284

theorem Modest.mono {k k' : Nat} {used : Int} {n : Nat} (h : Modest k used n) (hk : k ≤ k') :
    Modest k' used n := by
  unfold Modest at h ⊢
  omega

theorem modest_size_le {k : Nat} {used : Int} {n : Nat} (h : Modest k used n) (hk : k ≤ 8192) :
    n ≤ 46341 := by
  unfold Modest at h
  omega

/-- By Bertrand's postulate. -/
theorem init_size_le {x : Int} (hx : 2 ≤ x) : (init_size x : Int) ≤ 2 * x := by
  obtain ⟨q, hq, hlt, hle⟩ := Nat.exists_prime_lt_and_le_two_mul x.toNat (by omega)
  have hleast := (next_prime_spec x).2.2.2 q hq (by omega)
  have htwo := (next_prime_spec x).2.2.1
  unfold init_size
  omega

theorem modest_init : Modest 0 0 (init_size HT_BASE_SIZE) := by
  have hsize := init_size_le (x := HT_BASE_SIZE) (by decide)
  simp only [HT_BASE_SIZE] at hsize
  unfold Modest
  simp only [HT_BASE_SIZE]
  omega

/-- A table grows when more than 70 percent are used, to at most four times its size. -/
theorem Modest.grow {k : Nat} {used asked : Int} {n m : Nat} (h : Modest k used n) (hlow : 0 ≤ used)
    (hpos : 0 < n) (hgrow : resize_up_size unbounded (used + 1) n = some asked)
    (hcapacity : resize_size asked = some m) : Modest (k + 1) (used + 1) m := by
  have hload : ¬ load unbounded (used + 1) n < 71 := by
    intro hlt
    rw [resize_up_size_eq_none.mpr (by omega)] at hgrow
    cases hgrow
  obtain rfl := resize_up_size_eq_some hgrow
  obtain ⟨htwo, rfl⟩ := resize_size_eq_some hcapacity
  have hle := init_size_le htwo
  rw [load_lt_iff (by omega) hpos] at hload
  unfold Modest at h ⊢
  omega

theorem Modest.shrink {k : Nat} {used used' asked : Int} {n m : Nat} (h : Modest k used n)
    (hused : used' ≤ used)
    (hshrink : resize_down_size unbounded used' n = some asked)
    (hcapacity : resize_size asked = some m) :
    Modest k used' m := by
  obtain ⟨_, rfl⟩ := resize_down_size_eq_some hshrink
  obtain ⟨htwo, rfl⟩ := resize_size_eq_some hcapacity
  have hle := init_size_le htwo
  unfold Modest at h ⊢
  omega

/-- An insertion adds at most one to the counter. -/
theorem insert_modest {α : Type} {key : α → CStr} {checks : Bool} {t : Table α} {k : Nat}
    (hinj : checks → Function.Injective key)
    (h : (scheme unbounded key checks).Roomy (Sized unbounded) Light t)
    (hmodest : Modest k t.used t.size) (x : α) :
    Ensures AnyFault ((scheme unbounded key checks).insert 1 t x)
      (fun r => Modest (k + 1) r.1.used r.1.size) := by
  have hitems := h.items_le
  apply (h.insert_counts (scheme_lawful unbounded hinj) (scheme_keepsLight key checks) x).mono
  rintro r (⟨hused, hsize⟩ | ⟨hused, hsize | ⟨asked, hgrow, hcapacity⟩⟩)
  · rw [hused, hsize]
    exact hmodest.mono (Nat.le_succ k)
  · rw [hused, hsize]
    unfold Modest at hmodest ⊢
    omega
  · rw [hused]
    exact hmodest.grow (by omega) h.sized.1 hgrow hcapacity

theorem remove_modest {α : Type} {key : α → CStr} {checks : Bool} {t : Table α} {k : Nat}
    (hinj : checks → Function.Injective key)
    (h : (scheme unbounded key checks).Roomy (Sized unbounded) Light t)
    (hmodest : Modest k t.used t.size)
    (key' : CStr) :
    Ensures AnyFault ((scheme unbounded key checks).remove 1 t key')
      (fun r => Modest k r.1.used r.1.size) := by
  apply (h.remove_counts (scheme_lawful unbounded hinj) (scheme_keepsLight key checks) key').mono
  rintro r ⟨hused, hsize | ⟨asked, hshrink, hcapacity⟩⟩
  · rw [hsize]
    unfold Modest at hmodest ⊢
    omega
  · have hshrunk := hmodest.shrink (by omega) hshrink hcapacity
    unfold Modest at hmodest hshrunk ⊢
    omega

/-! ## Single operations -/

/-- A table of the exact arithmetic in which at most `k` insertions were made. -/
structure SmallTable {α : Type} (key : α → CStr) (checks : Bool) (k : Nat) (t : Table α) : Prop where
  roomy : (scheme unbounded key checks).Roomy (Sized unbounded) Light t
  modest : Modest k t.used t.size

section

variable {α : Type} {key : α → CStr} {checks : Bool} {k : Nat} {t : Table α}

theorem SmallTable.mono {k' : Nat} (h : SmallTable key checks k t) (hk : k ≤ k') :
    SmallTable key checks k' t :=
  ⟨h.roomy, h.modest.mono hk⟩

theorem SmallTable.size_le (h : SmallTable key checks k t) (hk : k ≤ 8192) : t.size ≤ 46341 :=
  modest_size_le h.modest hk

theorem smallTable_init : SmallTable key checks 0 (Table.empty (init_size HT_BASE_SIZE) : Table α) := by
  obtain ⟨hsized, hlight⟩ := light_init HT_BASE_SIZE
  refine ⟨Scheme.roomy_empty hsized hlight, ?_⟩
  rw [Table.empty_used, Table.empty_size]
  exact modest_init

/-- Overwriting an item with one of its own key. -/
theorem SmallTable.replace {p : Nat} {x y : α} (h : SmallTable key checks k t)
    (hslot : t.slots[p]? = some (.live x)) (hkey : key y = key x) :
    SmallTable key checks k (t.write p (.live y)) := by
  refine ⟨h.roomy.replace hslot hkey, ?_⟩
  rw [Table.write_used, Table.write_size]
  exact h.modest

theorem SmallTable.load_le (h : SmallTable key checks k t) (hk : k ≤ 8192) :
    load machine t.used t.size ≤ 70 ∧ t.used < t.size := by
  have hitems := h.roomy.items_le
  obtain ⟨hload, hused⟩ := h.roomy.light
  refine ⟨?_, hused⟩
  rw [load_small (by omega) (by omega) (h.size_le hk)]
  exact hload

theorem SmallTable.search (h : SmallTable key checks k t) (hk : k ≤ 8192) (key' : CStr) :
    (scheme machine key checks).search t key' = (scheme unbounded key checks).search t key' :=
  (scheme_agrees key checks).search (h.size_le hk) key'

variable (hinj : checks → Function.Injective key)
include hinj

/-- What the exact arithmetic leaves, without a fault, is small again. -/
theorem SmallTable.insert (h : SmallTable key checks k t) (hk : k + 1 ≤ 8192) (x : α) :
    Same ((scheme machine key checks).insert 1 t x) ((scheme unbounded key checks).insert 1 t x)
      (fun r => SmallTable key checks (k + 1) r.1) := by
  have hS := scheme_lawful unbounded hinj
  have hL := scheme_keepsLight key checks
  have hafter := (h.roomy.insert hS hL x).and (insert_modest hinj h.roomy h.modest x)
  refine ⟨(scheme_agrees key checks).insert hS hL h.roomy (h.size_le (by omega)) h.roomy.light.2 ?_,
    hafter.anyFault.mono fun r hr => ⟨hr.1, hr.2⟩⟩
  exact (hafter.tolerate fun e he => not_indexOverflow .exact _ he.2).mono
    fun r hr => modest_size_le hr.2 hk

theorem SmallTable.remove (h : SmallTable key checks k t) (hk : k ≤ 8192) (key' : CStr) :
    Same ((scheme machine key checks).remove 1 t key') ((scheme unbounded key checks).remove 1 t key')
      (fun r => SmallTable key checks k r.1) := by
  have hS := scheme_lawful unbounded hinj
  have hL := scheme_keepsLight key checks
  have hafter := (h.roomy.remove hS hL key').and (remove_modest hinj h.roomy h.modest key')
  refine ⟨(scheme_agrees key checks).remove hS hL h.roomy (h.size_le hk) h.roomy.light.2 ?_,
    hafter.anyFault.mono fun r hr => ⟨hr.1, hr.2⟩⟩
  exact (hafter.tolerate fun e he => not_indexOverflow .exact _ he.2).mono
    fun r hr => modest_size_le hr.2 hk

end

end hyperkv
