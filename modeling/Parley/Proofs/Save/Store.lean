/-
  Parley.Proofs.Save.Store

  What a store keeps. A store whose operations work on a world of their own keeps books if
  loading shows the book of an entity, a save that succeeds enters its record into the book, and
  a save that fails changes no book (`Store.Keeps`). The memory does, and so does the one with
  outages, whatever its plan.

  In a book, a record is found under its own keys right after it was entered, what is found
  under other keys stays the same, and no key occurs twice that did not before.
-/
import Parley.Save.Store

namespace Parley

deriving instance ReflBEq, LawfulBEq for Entity

/-! ### Books -/

namespace Book

variable {α : Type}

theorem find?_replaceFirst {same : α → Bool} {new : α} (h : same new = true) (l : List α) :
    (replaceFirst same new l).find? same = some new := by
  induction l with
  | nil => simp [replaceFirst, h]
  | cons a rest ih =>
      rw [replaceFirst]
      split
      · rw [List.find?_cons_of_pos h]
      · rename_i ha
        rw [List.find?_cons_of_neg ha, ih]

theorem find?_replaceFirst_of_ne {same : α → Bool} {new : α} (wanted : α → Bool)
    (hnew : wanted new = false) (hsame : ∀ a, same a = true → wanted a = false) (l : List α) :
    (replaceFirst same new l).find? wanted = l.find? wanted := by
  induction l with
  | nil => rw [replaceFirst, List.find?_cons_of_neg (by simp [hnew])]
  | cons a rest ih =>
      rw [replaceFirst]
      split
      · rename_i ha
        have hwanted := hsame a ha
        rw [List.find?_cons_of_neg (by simp [hnew]), List.find?_cons_of_neg (by simp [hwanted])]
      · rw [List.find?_cons, List.find?_cons, ih]

theorem mem_replaceFirst {same : α → Bool} {new a : α} {l : List α}
    (h : a ∈ replaceFirst same new l) : a = new ∨ a ∈ l := by
  induction l with
  | nil => exact .inl (List.mem_singleton.1 h)
  | cons b rest ih =>
      rw [replaceFirst] at h
      split at h
      · rcases List.mem_cons.1 h with h | h
        · exact .inl h
        · exact .inr (List.mem_cons_of_mem b h)
      · rcases List.mem_cons.1 h with rfl | h
        · exact .inr List.mem_cons_self
        · exact (ih h).imp_right (List.mem_cons_of_mem b)

/-- A key that is there keeps its place, a new one goes to the end. -/
theorem keys_replaceFirst {κ : Type} [DecidableEq κ] {key : α → κ} {same : α → Bool} {new : α}
    (hsame : ∀ a, same a = true ↔ key a = key new) (l : List α) :
    (replaceFirst same new l).map key =
      if key new ∈ l.map key then l.map key else l.map key ++ [key new] := by
  induction l with
  | nil => simp [replaceFirst]
  | cons a rest ih =>
      rw [replaceFirst]
      by_cases ha : same a = true
      · have hkey := (hsame a).1 ha
        simp [ha, hkey]
      · have hkey : ¬ key new = key a := fun h => ha ((hsame a).2 h.symm)
        rw [if_neg ha, List.map_cons, ih]
        by_cases hmem : key new ∈ rest.map key
        · rw [if_pos hmem, if_pos (by rw [List.map_cons]; exact List.mem_cons_of_mem _ hmem),
            List.map_cons]
        · have hnot : key new ∉ (a :: rest).map key := by
            rw [List.map_cons, List.mem_cons, not_or]
            exact ⟨hkey, hmem⟩
          rw [if_neg hmem, if_neg hnot, List.map_cons, List.cons_append]

theorem nodup_replaceFirst {κ : Type} [DecidableEq κ] {key : α → κ} {same : α → Bool} {new : α}
    (hsame : ∀ a, same a = true ↔ key a = key new) {l : List α} (h : (l.map key).Nodup) :
    ((replaceFirst same new l).map key).Nodup := by
  rw [keys_replaceFirst hsame]
  split
  · exact h
  · rename_i hnew
    refine List.nodup_append.2 ⟨h, by simp, ?_⟩
    intro a ha b hb
    rw [List.mem_singleton.1 hb]
    rintro rfl
    exact hnew ha

theorem findGlobal_upsert (b : Book) (r : Record) :
    (b.upsert r).findGlobal r.global.entity = some r.global :=
  find?_replaceFirst (by simp) b.globals

theorem findLocal_upsert (b : Book) {r : Record} {i : Identity} (h : r.own.isOf i = true) :
    (b.upsert r).findLocal i = some r.own := by
  obtain ⟨hentity, huid⟩ : r.own.entity = i.entity ∧ r.own.uid = i.uid := by
    simpa [LocalRecord.isOf] using h
  -- The look-up asks for an identity, the update for another record; here the two agree.
  have hkey : (fun a : LocalRecord => a.isOf i) = fun a => a.sameKey r.own := by
    funext a
    rw [LocalRecord.isOf, LocalRecord.sameKey, hentity, huid]
  rw [findLocal, hkey]
  exact find?_replaceFirst (by simp [LocalRecord.sameKey]) b.locals

theorem findLocal_upsert_of_ne (b : Book) {r : Record} {i : Identity} (h : r.own.isOf i = false) :
    (b.upsert r).findLocal i = b.findLocal i := by
  refine find?_replaceFirst_of_ne (fun a => a.isOf i) h (fun a ha => ?_) b.locals
  obtain ⟨hentity, huid⟩ : a.entity = r.own.entity ∧ a.uid = r.own.uid := by
    simpa [LocalRecord.sameKey] using ha
  rw [← h, LocalRecord.isOf, LocalRecord.isOf, hentity, huid]

/-- No key occurs twice. -/
structure Keyed (b : Book) : Prop where
  globals : (b.globals.map (·.entity)).Nodup
  locals : (b.locals.map fun l => (l.entity, l.uid)).Nodup

theorem Keyed.upsert {b : Book} (h : b.Keyed) (r : Record) : (b.upsert r).Keyed where
  globals := nodup_replaceFirst (fun a => by simp) h.globals
  locals := nodup_replaceFirst (fun a => by simp [LocalRecord.sameKey]) h.locals

end Book

/-! ### Stores -/

/-- A store that works on a world `σ` keeps the books that `book` sees there. -/
structure Store.Keeps {σ : Type} (store : Store (StateM σ)) (book : σ → Entity → Book) : Prop where
  load : ∀ w e, (store.load e).run w = (.ok (book w e), w)
  saved : ∀ {w w' r}, (store.save r).run w = (.ok (), w') →
    book w' r.global.entity = (book w r.global.entity).upsert r
  failed : ∀ {w w' r e}, (store.save r).run w = (.error e, w') → book w' = book w

namespace Memory

theorem lookup_replaceFirst (e : Entity) (b : Book) (l : List (Entity × Book)) :
    (Book.replaceFirst (·.1 == e) (e, b) l).lookup e = some b := by
  induction l with
  | nil => simp [Book.replaceFirst]
  | cons entry rest ih =>
      obtain ⟨key, kept⟩ := entry
      rw [Book.replaceFirst]
      split
      · simp
      · rename_i hkey
        have hne : (e == key) = false := by
          rw [beq_eq_false_iff_ne]
          intro heq
          exact hkey (by simp [heq])
        rw [List.lookup_cons, hne]
        exact ih

theorem lookup_replaceFirst_of_ne {e other : Entity} (h : other ≠ e) (b : Book)
    (l : List (Entity × Book)) :
    (Book.replaceFirst (·.1 == e) (e, b) l).lookup other = l.lookup other := by
  have hother : (other == e) = false := beq_eq_false_iff_ne.2 h
  induction l with
  | nil => rw [Book.replaceFirst, List.lookup_cons, hother]
  | cons entry rest ih =>
      obtain ⟨key, kept⟩ := entry
      rw [Book.replaceFirst]
      split
      · rename_i hkey
        obtain rfl : key = e := by simpa using hkey
        rw [List.lookup_cons, List.lookup_cons, hother]
      · rw [List.lookup_cons, List.lookup_cons, ih]

theorem load_save_self (m : Memory) (r : Record) :
    (m.save r).load r.global.entity = (m.load r.global.entity).upsert r := by
  rw [save, load, lookup_replaceFirst, Option.getD_some]

theorem load_save_of_ne (m : Memory) {r : Record} {e : Entity} (h : e ≠ r.global.entity) :
    (m.save r).load e = m.load e := by
  rw [save, load, lookup_replaceFirst_of_ne h, load]

theorem keeps : Memory.store.Keeps Memory.load where
  load _ _ := rfl
  saved {w _ r} h := by
    cases h
    exact load_save_self w r
  failed h := by cases h

end Memory

namespace Unsteady

theorem keeps : Unsteady.store.Keeps fun u => u.memory.load where
  load _ _ := rfl
  saved {w w' r} h := by
    obtain ⟨outages, memory⟩ := w
    cases outages with
    | nil =>
        cases h
        exact Memory.load_save_self memory r
    | cons fails rest =>
        cases fails with
        | true => cases h
        | false =>
            cases h
            exact Memory.load_save_self memory r
  failed {w w' r e} h := by
    obtain ⟨outages, memory⟩ := w
    cases outages with
    | nil => cases h
    | cons fails rest =>
        cases fails with
        | true =>
            cases h
            rfl
        | false => cases h

end Unsteady

end Parley
