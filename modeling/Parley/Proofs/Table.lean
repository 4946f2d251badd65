/-
  Parley.Proofs.Table

  Tables as maps. A table is known by its look-ups: its entries are the pairs that can be looked
  up (`get?_eq_some_iff`), in the one ascending order that they have, so tables with the same
  look-ups are the same (`eq_of_get?`). What a table is does not depend on the order in which
  different names were entered (`ofList_perm`), and of pairs with one name the last is the one that
  stays (`get?_foldl_insert`).
-/
import Mathlib.Data.List.Induction
import Mathlib.Data.List.Sort
import Parley.Table

namespace Parley.Table

variable {α β : Type} {l l' : List (String × α)}

/-! ### Look-ups -/

theorem find_map (f : α → β) (l : List (String × α)) (name : String) :
    find name (l.map fun e => (e.1, f e.2)) = (find name l).map f := by
  induction l with
  | nil => rfl
  | cons e l ih =>
      rw [List.map_cons, find, find, ih]
      split <;> rfl

theorem mem_of_find {name : String} {a : α} (h : find name l = some a) : (name, a) ∈ l := by
  induction l with
  | nil => cases h
  | cons e l ih =>
      rw [find] at h
      split at h
      · rename_i hname
        obtain rfl := hname
        obtain rfl := Option.some.inj h
        exact List.mem_cons_self
      · exact List.mem_cons_of_mem e (ih h)

/-- Among entries with different names, each is found under its name. -/
theorem find_of_mem {name : String} {a : α} (hnodup : (l.map (·.1)).Nodup) (h : (name, a) ∈ l) :
    find name l = some a := by
  induction l with
  | nil => cases h
  | cons e l ih =>
      obtain ⟨hnew, hrest⟩ := List.nodup_cons.1 hnodup
      rw [find]
      rcases List.mem_cons.1 h with rfl | hmem
      · exact if_pos rfl
      · -- The name is in the rest, so the first entry has another.
        have hne : e.1 ≠ name := by
          rintro rfl
          exact hnew (List.mem_map.2 ⟨_, hmem, rfl⟩)
        rw [if_neg hne]
        exact ih hrest hmem

/-- A look-up does not depend on the order of entries with different names. -/
theorem find_perm (hperm : l.Perm l') (hnodup : (l.map (·.1)).Nodup) (name : String) :
    find name l = find name l' := by
  have hnodup' := (hperm.map (·.1)).nodup_iff.1 hnodup
  refine Option.ext fun a => ?_
  constructor
  · intro h
    exact find_of_mem hnodup' (hperm.subset (mem_of_find h))
  · intro h
    exact find_of_mem hnodup (hperm.symm.subset (mem_of_find h))

/-! ### Names -/

theorem nodup_names (t : Table α) : (t.entries.map (·.1)).Nodup := by
  refine List.Pairwise.imp ?_ (List.pairwise_map.2 t.ordered)
  intro k k' hlt
  exact String.ne_of_lt hlt

theorem get?_eq_some_iff (t : Table α) {name : String} {a : α} :
    t.get? name = some a ↔ (name, a) ∈ t.entries :=
  ⟨mem_of_find, find_of_mem t.nodup_names⟩

theorem mem_names_iff (t : Table α) (name : String) :
    name ∈ t.names ↔ (t.get? name).isSome = true := by
  rw [Option.isSome_iff_exists, names, List.mem_map]
  constructor
  · rintro ⟨⟨_, a⟩, hmem, rfl⟩
    exact ⟨a, t.get?_eq_some_iff.2 hmem⟩
  · rintro ⟨a, ha⟩
    exact ⟨(name, a), t.get?_eq_some_iff.1 ha, rfl⟩

/-! ### One ascending order -/

theorem entries_inj {s t : Table α} (h : s.entries = t.entries) : s = t := by
  cases s
  cases t
  exact (Table.mk.injEq ..).mpr h

/-- The same entries have only one ascending order. -/
theorem eq_of_perm {s t : Table α} (h : s.entries.Perm t.entries) : s = t :=
  entries_inj (h.eq_of_pairwise' s.ordered t.ordered)

/-- Tables with the same look-ups are the same. -/
theorem eq_of_get? {s t : Table α} (h : ∀ name, s.get? name = t.get? name) : s = t := by
  refine eq_of_perm ((List.perm_ext_iff_of_nodup s.nodup_names.of_map t.nodup_names.of_map).2 ?_)
  rintro ⟨name, a⟩
  rw [← s.get?_eq_some_iff, ← t.get?_eq_some_iff, h name]

/-! ### Entering -/

/-- The table with a function applied to every entry. -/
def map (f : α → β) (t : Table α) : Table β where
  entries := t.entries.map fun e => (e.1, f e.2)
  ordered := List.pairwise_map.2 t.ordered

theorem get?_map (f : α → β) (t : Table α) (name : String) :
    (t.map f).get? name = (t.get? name).map f :=
  find_map f t.entries name

/-- A name above all others goes to the end. -/
theorem put_of_above {name : String} (h : ∀ e ∈ l, e.1 < name) (a : α) :
    put name a l = l ++ [(name, a)] := by
  induction l with
  | nil => rfl
  | cons e l ih =>
      obtain ⟨k, b⟩ := e
      have hk : k < name := h (k, b) List.mem_cons_self
      have hl := ih fun e he => h e (List.mem_cons_of_mem _ he)
      rw [put, if_neg (String.lt_asymm hk), if_neg (String.ne_of_lt hk).symm, hl]
      rfl

theorem entries_foldl_insert (t : Table α) (h : Ordered (t.entries ++ l)) :
    (l.foldl (fun t e => t.insert e.1 e.2) t).entries = t.entries ++ l := by
  induction l generalizing t with
  | nil => simp
  | cons e l ih =>
      have habove : ∀ x ∈ t.entries, x.1 < e.1 :=
        fun x hx => (List.pairwise_append.1 h).2.2 x hx e List.mem_cons_self
      have hinsert : (t.insert e.1 e.2).entries = t.entries ++ [e] := put_of_above habove e.2
      have hsame : (t.insert e.1 e.2).entries ++ l = t.entries ++ e :: l := by
        rw [hinsert, List.append_assoc, List.singleton_append]
      rw [List.foldl_cons, ih (t.insert e.1 e.2) (by rw [hsame]; exact h), hsame]

/-- The entries of a table, entered in their order, make up the table. -/
theorem ofList_entries (t : Table α) : ofList t.entries = t :=
  entries_inj (entries_foldl_insert empty t.ordered)

/-- A new name is entered somewhere. -/
theorem put_perm {name : String} (h : ∀ e ∈ l, e.1 ≠ name) (a : α) :
    (put name a l).Perm ((name, a) :: l) := by
  induction l with
  | nil => rfl
  | cons e l ih =>
      obtain ⟨k, b⟩ := e
      have hk : name ≠ k := (h (k, b) List.mem_cons_self).symm
      have hl := ih fun e he => h e (List.mem_cons_of_mem _ he)
      rw [put, if_neg hk]
      split
      · rfl
      · exact (hl.cons (k, b)).trans (.swap _ _ l)

theorem foldl_put_perm (done : List (String × α)) (hnodup : (l.map (·.1)).Nodup)
    (hnew : ∀ e ∈ l, ∀ d ∈ done, d.1 ≠ e.1) :
    (l.foldl (fun done e => put e.1 e.2 done) done).Perm (done ++ l) := by
  induction l generalizing done with
  | nil => rw [List.append_nil]; rfl
  | cons e l ih =>
      obtain ⟨hhead, htail⟩ := List.nodup_cons.1 hnodup
      have hput := put_perm (hnew e List.mem_cons_self) e.2
      have hnew' : ∀ f ∈ l, ∀ d ∈ put e.1 e.2 done, d.1 ≠ f.1 := by
        intro f hf d hd
        rcases List.mem_cons.1 (hput.subset hd) with rfl | hd
        · intro hname
          have hmem : f.1 ∈ l.map (·.1) := List.mem_map_of_mem hf
          rw [← hname] at hmem
          exact hhead hmem
        · exact hnew f (List.mem_cons_of_mem e hf) d hd
      refine (ih _ htail hnew').trans ?_
      exact (hput.append_right l).trans List.perm_middle.symm

theorem entries_foldl_put (t : Table α) (l : List (String × α)) :
    (l.foldl (fun t e => t.insert e.1 e.2) t).entries =
      l.foldl (fun done e => put e.1 e.2 done) t.entries := by
  induction l generalizing t with
  | nil => rfl
  | cons e l ih => exact ih (t.insert e.1 e.2)

/-- A table does not depend on the order in which different names are entered. -/
theorem ofList_perm (hperm : l.Perm l') (hnodup : (l.map (·.1)).Nodup) : ofList l = ofList l' := by
  have hentries (l : List (String × α)) (h : (l.map (·.1)).Nodup) : (ofList l).entries.Perm l := by
    rw [ofList, entries_foldl_put]
    exact foldl_put_perm [] h (by simp)
  have hnodup' := (hperm.map (·.1)).nodup_iff.1 hnodup
  exact eq_of_perm ((hentries l hnodup).trans (hperm.trans (hentries l' hnodup').symm))

/-- The pair that is entered last is the one that stays. -/
theorem get?_foldl_insert (l : List (String × α)) (t : Table α) (name : String) :
    (l.foldl (fun t e => t.insert e.1 e.2) t).get? name =
      ((l.filter (·.1 == name)).getLast?.map (·.2)).or (t.get? name) := by
  -- From the back, since the last pair of the name is the one that counts.
  induction l using List.reverseRecOn with
  | nil => rfl
  | append_singleton l e ih =>
      rw [List.foldl_append, List.foldl_cons, List.foldl_nil, List.filter_append]
      by_cases h : e.1 = name
      · subst h
        simp
      · simp [h, get?_insert_of_ne _ (Ne.symm h), ih]

end Parley.Table
