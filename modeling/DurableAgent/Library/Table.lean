import Mathlib.Data.List.Nodup
import Mathlib.Data.List.Sort
import Mathlib.Order.Defs.Unbundled
import Mathlib.Tactic.Common

/-!
# Tables with versioned rows

Rows under distinct primary keys, written by insertion or by a compare-and-swap on the version
of a row. Versions only grow, so a copy that was read earlier either is the present row or is
older than it, and a swap that finds the version of the copy finds the copy itself.
-/

namespace DurableAgent.Library

structure Table {ρ κ : Type} (key : ρ → κ) where
  rows : List ρ
  nodup_keys : (rows.map key).Nodup

namespace Table

variable {ρ κ : Type} {key : ρ → κ}

def empty : Table key := ⟨[], List.nodup_nil⟩

/-- A key has one row. -/
theorem row_unique (t : Table key) {a b : ρ} (ha : a ∈ t.rows) (hb : b ∈ t.rows)
    (hkey : key a = key b) : a = b :=
  List.inj_on_of_nodup_map t.nodup_keys ha hb hkey

variable [DecidableEq κ]

def find (t : Table key) (k : κ) : Option ρ := t.rows.find? fun row => key row = k

theorem find_eq_some {t : Table key} {k : κ} {row : ρ} :
    t.find k = some row ↔ row ∈ t.rows ∧ key row = k := by
  constructor
  · intro h
    exact ⟨List.mem_of_find?_eq_some h, by simpa using List.find?_some h⟩
  · rintro ⟨hmem, rfl⟩
    cases hfind : t.find (key row) with
    | none =>
      have h := List.find?_eq_none.mp hfind row hmem
      simp at h
    | some found =>
      have hfound := List.mem_of_find?_eq_some hfind
      have hkey : key found = key row := by simpa using List.find?_some hfind
      rw [t.row_unique hfound hmem hkey]

/-- INSERT of a row; `none` is a violated key. -/
def insert (t : Table key) (row : ρ) : Option (Table key) :=
  if h : key row ∈ t.rows.map key then none
  else some ⟨row :: t.rows, by rw [List.map_cons]; exact List.nodup_cons.mpr ⟨h, t.nodup_keys⟩⟩

/-- The rows are inserted in one transaction, all or none. -/
def insertAll (t : Table key) : List ρ → Option (Table key)
  | [] => some t
  | row :: rest => (t.insert row).bind fun t' => t'.insertAll rest

theorem insert_rows {t t' : Table key} {row : ρ} (h : t.insert row = some t') :
    t'.rows = row :: t.rows := by
  unfold insert at h
  split at h
  · cases h
  · rw [← Option.some.inj h]

theorem free_of_insert {t t' : Table key} {row : ρ} (h : t.insert row = some t') :
    key row ∉ t.rows.map key := by
  unfold insert at h
  split at h
  · cases h
  · assumption

theorem find_insert {t t' : Table key} {row : ρ} (h : t.insert row = some t') :
    t'.find (key row) = some row := by
  rw [find_eq_some, insert_rows h]
  exact ⟨List.mem_cons_self, rfl⟩

/-- A row whose key is free can be inserted, and is found then. -/
theorem insert_of_find_none {t : Table key} {row : ρ} (h : t.find (key row) = none) :
    ∃ t', t.insert row = some t' ∧ t'.rows = row :: t.rows ∧ t'.find (key row) = some row := by
  have hfree : key row ∉ t.rows.map key := by
    intro hmem
    obtain ⟨a, ha, hkey⟩ := List.mem_map.mp hmem
    rw [find_eq_some.mpr ⟨ha, hkey⟩] at h
    cases h
  refine ⟨_, dif_neg hfree, rfl, ?_⟩
  exact find_eq_some.mpr ⟨List.mem_cons_self, rfl⟩

theorem insertAll_rows {t t' : Table key} {rows : List ρ} (h : t.insertAll rows = some t') :
    t'.rows = rows.reverse ++ t.rows := by
  induction rows generalizing t with
  | nil =>
    rw [← Option.some.inj h]
    simp
  | cons row rest ih =>
    obtain ⟨t₁, hrow, hrest⟩ := Option.bind_eq_some_iff.mp h
    rw [ih hrest, insert_rows hrow]
    simp

theorem mem_insertAll {t t' : Table key} {rows : List ρ} (h : t.insertAll rows = some t') (a : ρ) :
    a ∈ t'.rows ↔ a ∈ rows ∨ a ∈ t.rows := by
  rw [insertAll_rows h, List.mem_append, List.mem_reverse]

/-- SELECT of the rows that meet a condition, in the order of a column. -/
def select {ι : Type} [LinearOrder ι] (t : Table key) (p : ρ → Prop) [DecidablePred p]
    (order : ρ → ι) : List ρ :=
  (t.rows.filter p).insertionSort fun a b => order a ≤ order b

section Select

variable {ι : Type} [LinearOrder ι] {t t' : Table key} {p : ρ → Prop} [DecidablePred p]
  {order : ρ → ι} {rows : List ρ}

omit [DecidableEq κ] in
theorem pairwise_select : (t.select p order).Pairwise fun a b => order a ≤ order b := by
  have htotal : Std.Total fun a b : ρ => order a ≤ order b := ⟨fun a b => le_total _ _⟩
  have htrans : IsTrans ρ fun a b => order a ≤ order b := ⟨fun _ _ _ => le_trans⟩
  exact List.pairwise_insertionSort _ _

/-- The rows that meet the condition are the new ones, if none of the old ones does. -/
theorem select_insertAll_perm (h : t.insertAll rows = some t') (hnew : ∀ row ∈ rows, p row)
    (hold : ∀ row ∈ t.rows, ¬ p row) : (t'.select p order).Perm rows := by
  have hfilter : t'.rows.filter p = rows.reverse := by
    rw [insertAll_rows h, List.filter_append, List.filter_eq_self.mpr, List.filter_eq_nil_iff.mpr,
      List.append_nil]
    · simpa using hold
    · simpa using hnew
  have hperm := List.perm_insertionSort (fun a b : ρ => order a ≤ order b) (t'.rows.filter p)
  rw [select, hfilter] at *
  exact hperm.trans rows.reverse_perm

/-- New rows are read back as they were written exactly if they were written in order. -/
theorem select_insertAll_eq_iff (h : t.insertAll rows = some t') (hnew : ∀ row ∈ rows, p row)
    (hold : ∀ row ∈ t.rows, ¬ p row) (hdistinct : (rows.map order).Nodup) :
    t'.select p order = rows ↔ rows.Pairwise fun a b => order a ≤ order b := by
  have hperm := @select_insertAll_perm _ _ _ _ _ _ t t' p _ order rows h hnew hold
  constructor
  · intro heq
    rw [← heq]
    exact pairwise_select
  · intro hsorted
    apply List.Perm.eq_of_pairwise _ pairwise_select hsorted hperm
    intro a b ha hb hab hba
    exact List.inj_on_of_nodup_map hdistinct (hperm.mem_iff.mp ha) hb (le_antisymm hab hba)

end Select

/-- UPDATE of every row by a function that keeps the keys. -/
def modify (t : Table key) (f : ρ → ρ) (hf : ∀ row, key (f row) = key row) : Table key where
  rows := t.rows.map f
  nodup_keys := by
    rw [List.map_map, show key ∘ f = key from funext hf]
    exact t.nodup_keys

/-- The row that has the key of the given one is replaced by it. -/
def replace (t : Table key) (row : ρ) : Table key :=
  t.modify (fun old => if key old = key row then row else old) fun old => by
    by_cases hkey : key old = key row
    · rw [if_pos hkey, hkey]
    · rw [if_neg hkey]

theorem mem_replace {t : Table key} {old row : ρ} (hold : old ∈ t.rows) (hkey : key row = key old)
    (a : ρ) : a ∈ (t.replace row).rows ↔ a = row ∨ (a ∈ t.rows ∧ key a ≠ key row) := by
  unfold replace modify
  rw [List.mem_map]
  constructor
  · rintro ⟨b, hb, rfl⟩
    by_cases hbk : key b = key row
    · simp [hbk]
    · simp [hbk, hb]
  · rintro (rfl | ⟨ha, hne⟩)
    · exact ⟨old, hold, by simp [hkey]⟩
    · exact ⟨a, ha, by simp [hne]⟩

/-- UPDATE of the row matched by its key and by the version it is expected to have; `none` is
an affected-row count of zero. -/
def swap (version : ρ → Nat) (t : Table key) (k : κ) (expected : Nat) (f : ρ → ρ) :
    Option (Table key) :=
  (t.find k).bind fun row => if version row = expected then some (t.replace (f row)) else none

theorem swap_eq_some {version : ρ → Nat} {t t' : Table key} {k : κ} {expected : Nat} {f : ρ → ρ} :
    t.swap version k expected f = some t' ↔
      ∃ row ∈ t.rows, key row = k ∧ version row = expected ∧ t.replace (f row) = t' := by
  unfold swap
  rw [Option.bind_eq_some_iff]
  constructor
  · rintro ⟨row, hfind, h⟩
    obtain ⟨hmem, hkey⟩ := find_eq_some.mp hfind
    split at h
    · next hv => exact ⟨row, hmem, hkey, hv, Option.some.inj h⟩
    · cases h
  · rintro ⟨row, hmem, hkey, hv, rfl⟩
    exact ⟨row, find_eq_some.mpr ⟨hmem, hkey⟩, by rw [if_pos hv]⟩

/-- The swap is refused exactly when no row of the key has the version. -/
theorem swap_eq_none {version : ρ → Nat} {t : Table key} {k : κ} {expected : Nat} {f : ρ → ρ} :
    t.swap version k expected f = none ↔
      ∀ row ∈ t.rows, key row = k → version row ≠ expected := by
  rw [Option.eq_none_iff_forall_ne_some]
  constructor
  · intro h row hmem hkey hv
    exact h _ (swap_eq_some.mpr ⟨row, hmem, hkey, hv, rfl⟩)
  · intro h t' hswap
    obtain ⟨row, hmem, hkey, hv, -⟩ := swap_eq_some.mp hswap
    exact h row hmem hkey hv

end Table

section Versioned

variable {ρ κ : Type} {key : ρ → κ} (version : ρ → Nat) (R : ρ → ρ → Prop)

/-- The row itself, or one of a higher version that the changes in between may have led to. -/
def Later (a b : ρ) : Prop := b = a ∨ (version a < version b ∧ R a b)

/-- Every row is kept, as it is or in a later form. -/
def Table.Evolves (t t' : Table key) : Prop :=
  ∀ a ∈ t.rows, ∃ b ∈ t'.rows, key b = key a ∧ Later version R a b

/-- A copy of a row as it is or as it was at some time before. -/
def Table.Copy (t : Table key) (c : ρ) : Prop :=
  ∃ b ∈ t.rows, key b = key c ∧ Later version R c b

variable {version R}

theorem Later.trans [IsTrans ρ R] {a b c : ρ} (hab : Later version R a b)
    (hbc : Later version R b c) : Later version R a c := by
  rcases hab with rfl | ⟨hv, hR⟩
  · exact hbc
  · rcases hbc with rfl | ⟨hv', hR'⟩
    · exact .inr ⟨hv, hR⟩
    · exact .inr ⟨Nat.lt_trans hv hv', IsTrans.trans _ _ _ hR hR'⟩

namespace Table

variable {t t' t'' : Table key} {c row : ρ}

theorem Evolves.refl (t : Table key) : t.Evolves version R t :=
  fun a ha => ⟨a, ha, rfl, .inl rfl⟩

theorem Evolves.trans [IsTrans ρ R] (h : t.Evolves version R t') (h' : t'.Evolves version R t'') :
    t.Evolves version R t'' := by
  intro a ha
  obtain ⟨b, hb, hkey, hlater⟩ := h a ha
  obtain ⟨c, hc, hkey', hlater'⟩ := h' b hb
  exact ⟨c, hc, hkey'.trans hkey, hlater.trans hlater'⟩

theorem Evolves.of_subset (h : ∀ a ∈ t.rows, a ∈ t'.rows) : t.Evolves version R t' :=
  fun a ha => ⟨a, h a ha, rfl, .inl rfl⟩

theorem Copy.of_mem (h : c ∈ t.rows) : t.Copy version R c := ⟨c, h, rfl, .inl rfl⟩

theorem Copy.evolve [IsTrans ρ R] (hc : t.Copy version R c) (h : t.Evolves version R t') :
    t'.Copy version R c := by
  obtain ⟨b, hb, hkey, hlater⟩ := hc
  obtain ⟨b', hb', hkey', hlater'⟩ := h b hb
  exact ⟨b', hb', hkey'.trans hkey, hlater.trans hlater'⟩

/-- A row that has the version of a copy is what the copy says. -/
theorem Copy.current (hc : t.Copy version R c) (hrow : row ∈ t.rows) (hkey : key row = key c)
    (hv : version row = version c) : row = c := by
  obtain ⟨b, hb, hkeyb, hlater⟩ := hc
  have hbrow : b = row := t.row_unique hb hrow (hkeyb.trans hkey.symm)
  rw [hbrow] at hlater
  rcases hlater with h | ⟨hlt, -⟩
  · exact h
  · omega

theorem replace_evolves [DecidableEq κ] {new : ρ} (hrow : row ∈ t.rows) (hkey : key new = key row)
    (hv : version row < version new) (hR : R row new) :
    t.Evolves version R (t.replace new) := by
  intro a ha
  by_cases hak : key a = key new
  · have harow : a = row := t.row_unique ha hrow (hak.trans hkey)
    rw [harow]
    exact ⟨new, (mem_replace hrow hkey new).mpr (.inl rfl), hkey, .inr ⟨hv, hR⟩⟩
  · exact ⟨a, (mem_replace hrow hkey a).mpr (.inr ⟨ha, hak⟩), rfl, .inl rfl⟩

end Table

end Versioned

end DurableAgent.Library
