/-
  Parley.Proofs.Save.Book

  Entering a record into a book is an update under a key. What is found under the keys of the
  record is the record, and what is found under all others stays (`findGlobal_upsert_eq`,
  `findLocal_upsert_eq`); the entries of other keys stay as they are and in their order, and a
  list grows only by a key that it did not hold. A book may hold a key twice, then the first
  entry is the one that is found and the one that is replaced.

  From the two look-ups follow the laws of several records (`Book.upsert_by_key`): a record that
  is entered twice changes nothing the second time, the order does not matter to records of
  different entities, nor to records of one entity with equal global parts, and a session does
  not see what is entered for other entities.
-/
import Parley.Proofs.Save.Store
import Parley.Save.Progress

namespace Parley

namespace Book

/-! ### Lists -/

section

variable {α : Type} {same : α → Bool} {new : α}

/-- Nothing but an entry of the key is touched. -/
theorem filter_replaceFirst (h : same new = true) (l : List α) :
    (replaceFirst same new l).filter (fun a => !same a) = l.filter fun a => !same a := by
  induction l with
  | nil => simp [replaceFirst, h]
  | cons a rest ih =>
      rw [replaceFirst]
      split
      · rename_i ha
        rw [List.filter_cons_of_neg (by simp [h]), List.filter_cons_of_neg (by simp [ha])]
      · rename_i ha
        rw [List.filter_cons_of_pos (by simp [ha]), List.filter_cons_of_pos (by simp [ha]), ih]

theorem replaceFirst_replaceFirst (h : same new = true) (l : List α) :
    replaceFirst same new (replaceFirst same new l) = replaceFirst same new l := by
  induction l with
  | nil => simp [replaceFirst, h]
  | cons a rest ih =>
      rw [replaceFirst]
      split
      · rw [replaceFirst, if_pos h]
      · rename_i ha
        rw [replaceFirst, if_neg ha, ih]

/-- Only an entry of a new key makes the list longer. -/
theorem length_replaceFirst (same : α → Bool) (new : α) (l : List α) :
    (replaceFirst same new l).length = if l.any same then l.length else l.length + 1 := by
  induction l with
  | nil => rfl
  | cons a rest ih =>
      rw [replaceFirst, List.any_cons]
      cases same a with
      | true => rfl
      | false =>
          simp only [Bool.false_eq_true, if_false, Bool.false_or, List.length_cons, ih]
          split <;> rfl

end

/-! ### Look-ups -/

variable (b : Book)

theorem findGlobal_upsert_eq (r : Record) (e : Entity) :
    (b.upsert r).findGlobal e =
      if r.global.entity = e then some r.global else b.findGlobal e := by
  split
  · rename_i he
    rw [← he, findGlobal_upsert]
  · rename_i he
    have hnew : (r.global.entity == e) = false := by simp [he]
    refine find?_replaceFirst_of_ne (fun g => g.entity == e) hnew ?_ b.globals
    intro g hg
    have hkey : g.entity = r.global.entity := by simpa using hg
    rw [hkey]
    exact hnew

theorem findLocal_upsert_eq (r : Record) (i : Identity) :
    (b.upsert r).findLocal i = if r.own.isOf i then some r.own else b.findLocal i := by
  split
  · rename_i hi
    exact findLocal_upsert b hi
  · rename_i hi
    exact findLocal_upsert_of_ne b (by simpa using hi)

/-- The book after a record was entered, and nothing else was done. -/
structure Entered (b : Book) (r : Record) (after : Book) : Prop where
  global : after.findGlobal r.global.entity = some r.global
  own : ∀ i, r.own.isOf i = true → after.findLocal i = some r.own
  otherGlobal : ∀ e, e ≠ r.global.entity → after.findGlobal e = b.findGlobal e
  otherOwn : ∀ i, r.own.isOf i = false → after.findLocal i = b.findLocal i
  /-- The entries of other keys, in their order. -/
  keptGlobals : after.globals.filter (fun g => !(g.entity == r.global.entity)) =
    b.globals.filter fun g => !(g.entity == r.global.entity)
  keptLocals : after.locals.filter (fun l => !l.sameKey r.own) =
    b.locals.filter fun l => !l.sameKey r.own
  globalsLength : after.globals.length =
    if b.globals.any (·.entity == r.global.entity) then b.globals.length else b.globals.length + 1
  localsLength : after.locals.length =
    if b.locals.any (·.sameKey r.own) then b.locals.length else b.locals.length + 1
  keyed : b.Keyed → after.Keyed

theorem entered_upsert (r : Record) : b.Entered r (b.upsert r) where
  global := b.findGlobal_upsert r
  own _ hi := b.findLocal_upsert hi
  otherGlobal e he := by rw [findGlobal_upsert_eq, if_neg he.symm]
  otherOwn _ hi := b.findLocal_upsert_of_ne hi
  keptGlobals := filter_replaceFirst (by simp) b.globals
  keptLocals := filter_replaceFirst (by simp [LocalRecord.sameKey]) b.locals
  globalsLength := length_replaceFirst _ r.global b.globals
  localsLength := length_replaceFirst _ r.own b.locals
  keyed h := h.upsert r

theorem upsert_upsert (r : Record) : (b.upsert r).upsert r = b.upsert r := by
  have hglobals : ((b.upsert r).upsert r).globals = (b.upsert r).globals :=
    replaceFirst_replaceFirst (by simp) b.globals
  have hlocals : ((b.upsert r).upsert r).locals = (b.upsert r).locals :=
    replaceFirst_replaceFirst (by simp [LocalRecord.sameKey]) b.locals
  exact (Book.mk.injEq ..).mpr ⟨hglobals, hlocals⟩

/-! ### Several records -/

/-- Every question to the two books has the same answer. -/
structure SameAnswers (b b' : Book) : Prop where
  global : ∀ e, b.findGlobal e = b'.findGlobal e
  own : ∀ i, b.findLocal i = b'.findLocal i

variable {r s : Record}

/-- The order does not matter to what is found under keys of which no identity has both. -/
theorem findLocal_upsert_comm (h : ∀ i, r.own.isOf i = true → s.own.isOf i = false)
    (i : Identity) :
    ((b.upsert r).upsert s).findLocal i = ((b.upsert s).upsert r).findLocal i := by
  simp only [findLocal_upsert_eq]
  cases hr : r.own.isOf i with
  | false => simp
  | true => simp [h i hr]

theorem sameAnswers_of_entities (hr : r.own.entity = r.global.entity)
    (hs : s.own.entity = s.global.entity) (hne : r.global.entity ≠ s.global.entity) :
    SameAnswers ((b.upsert r).upsert s) ((b.upsert s).upsert r) where
  global e := by
    simp only [findGlobal_upsert_eq]
    by_cases he : r.global.entity = e
    · have hs' : s.global.entity ≠ e := fun h => hne (he.trans h.symm)
      simp [he, hs']
    · simp [he]
  own := by
    refine b.findLocal_upsert_comm fun i hi => ?_
    have hentity : r.own.entity = i.entity ∧ r.own.uid = i.uid := by
      simpa [LocalRecord.isOf] using hi
    have hs' : s.own.entity ≠ i.entity :=
      fun h => hne (by rw [← hr, ← hs, hentity.1, h])
    simp [LocalRecord.isOf, hs']

/-- Records of one entity meet under its key, where the later one is found. -/
theorem findGlobal_upsert_both (h : r.global.entity = s.global.entity) (e : Entity) :
    ((b.upsert r).upsert s).findGlobal e =
      if r.global.entity = e then some s.global else b.findGlobal e := by
  simp only [findGlobal_upsert_eq, h]
  split <;> rfl

theorem findLocal_upsert_comm_of_uids (huid : r.own.uid ≠ s.own.uid) (i : Identity) :
    ((b.upsert r).upsert s).findLocal i = ((b.upsert s).upsert r).findLocal i := by
  refine b.findLocal_upsert_comm (fun i hi => ?_) i
  have hkey : r.own.entity = i.entity ∧ r.own.uid = i.uid := by
    simpa [LocalRecord.isOf] using hi
  have hs : s.own.uid ≠ i.uid := fun h => huid (by rw [hkey.2, h])
  simp [LocalRecord.isOf, hs]

/-- A session does not see what is entered for other entities. -/
theorem load_upserts {i : Identity} {records : List Record}
    (h : ∀ r ∈ records, r.own.entity = r.global.entity ∧ r.global.entity ≠ i.entity) (s : State)
    (p : Program) : s.load i p (records.foldl upsert b) = s.load i p b := by
  induction records generalizing b with
  | nil => rfl
  | cons r records ih =>
      obtain ⟨hentity, hne⟩ := h r List.mem_cons_self
      have hown : r.own.isOf i = false := by simp [LocalRecord.isOf, hentity, hne]
      have hstep : s.load i p (b.upsert r) = s.load i p b := by
        rw [State.load, findGlobal_upsert_eq, if_neg hne, findLocal_upsert_of_ne b hown, State.load]
      rw [List.foldl_cons, ih (b.upsert r) fun q hq => h q (List.mem_cons_of_mem r hq), hstep]

/-- The answers of two books are equal as numbers are compared. -/
structure EqualAnswers (b b' : Book) : Prop where
  global : ∀ e, b.findGlobal e = b'.findGlobal e ∨ (b.findGlobal e == b'.findGlobal e) = true
  own : ∀ i, b.findLocal i = b'.findLocal i

theorem sameAnswers_of_uids (huid : r.own.uid ≠ s.own.uid) (hglobal : r.global = s.global) :
    SameAnswers ((b.upsert r).upsert s) ((b.upsert s).upsert r) where
  global e := by
    have hentity : r.global.entity = s.global.entity := by rw [hglobal]
    rw [findGlobal_upsert_both b hentity, findGlobal_upsert_both b hentity.symm, hglobal]
  own := b.findLocal_upsert_comm_of_uids huid

theorem equalAnswers_of_uids (huid : r.own.uid ≠ s.own.uid)
    (hglobal : (r.global == s.global) = true) :
    EqualAnswers ((b.upsert s).upsert r) ((b.upsert r).upsert s) where
  global e := by
    have hparts : (r.global.entity == s.global.entity && r.global.scope == s.global.scope) = true :=
      hglobal
    have hentity : r.global.entity = s.global.entity := by
      simpa using (Bool.and_eq_true_iff.1 hparts).1
    rw [findGlobal_upsert_both b hentity, findGlobal_upsert_both b hentity.symm, hentity]
    split
    · exact .inr hglobal
    · exact .inl rfl
  own i := (b.findLocal_upsert_comm_of_uids huid i).symm

/-- Entering a record is a keyed update of any book, one in which keys are repeated included. The
    record is found under its keys and nothing else changes; entering it again changes nothing.
    Two records of different entities leave the same answers in either order, and so do two
    records of one entity with different uids and equal global parts. And what a session loads
    does not depend on records that are entered for other entities. -/
theorem upsert_by_key (b : Book) (r : Record) :
    b.Entered r (b.upsert r) ∧
    (b.upsert r).upsert r = b.upsert r ∧
    (∀ s : Record, r.own.entity = r.global.entity → s.own.entity = s.global.entity →
      r.global.entity ≠ s.global.entity →
      SameAnswers ((b.upsert r).upsert s) ((b.upsert s).upsert r)) ∧
    (∀ s : Record, r.own.uid ≠ s.own.uid →
      (r.global = s.global → SameAnswers ((b.upsert r).upsert s) ((b.upsert s).upsert r)) ∧
      ((r.global == s.global) = true →
        EqualAnswers ((b.upsert s).upsert r) ((b.upsert r).upsert s))) ∧
    ∀ (i : Identity) (records : List Record),
      (∀ q ∈ records, q.own.entity = q.global.entity ∧ q.global.entity ≠ i.entity) →
      ∀ (state : State) (p : Program),
        state.load i p (records.foldl upsert b) = state.load i p b := by
  refine ⟨b.entered_upsert r, b.upsert_upsert r, ?_, ?_, ?_⟩
  · intro s hr hs hne
    exact b.sameAnswers_of_entities hr hs hne
  · intro s huid
    exact ⟨b.sameAnswers_of_uids huid, b.equalAnswers_of_uids huid⟩
  · intro i records hothers state p
    exact b.load_upserts hothers state p

/-- A book from a file in which an entity and a session stand twice. The first entries of the
    keys are replaced and the others stay; `other` is of the same entity, `stranger` of another
    one, and its session does not see the two. -/
theorem upsert_by_key_repeated :
    let mira : Entity := ⟨"villager", "Mira"⟩
    let tom : Entity := ⟨"villager", "Tom"⟩
    let gold (x : Float) : Scope := .ofList [("gold", .number x)]
    let b : Book :=
      { globals := [⟨tom, gold 1⟩, ⟨mira, gold 2⟩, ⟨mira, gold 3⟩]
        locals := [⟨mira, "p", 4, none⟩, ⟨tom, "p", 5, none⟩, ⟨mira, "p", 6, some "camp"⟩] }
    let r : Record := ⟨⟨mira, gold 0⟩, ⟨mira, "p", 7, some "inn"⟩⟩
    let other : Record := ⟨⟨mira, gold (-0.0)⟩, ⟨mira, "q", 8, none⟩⟩
    let stranger : Record := ⟨⟨tom, gold 9⟩, ⟨tom, "q", 9, none⟩⟩
    (b.upsert r).globals.length = 3 ∧ (b.upsert r).locals.length = 3 ∧
      (b.upsert r).findLocal ⟨mira, "p", false⟩ = some r.own ∧
      (r.own.entity = r.global.entity ∧ stranger.own.entity = stranger.global.entity ∧
        r.global.entity ≠ stranger.global.entity ∧
        SameAnswers ((b.upsert r).upsert stranger) ((b.upsert stranger).upsert r)) ∧
      (r.own.uid ≠ other.own.uid ∧ (r.global == other.global) = true ∧
        EqualAnswers ((b.upsert other).upsert r) ((b.upsert r).upsert other)) ∧
      (∀ q ∈ [r, other], q.own.entity = q.global.entity ∧ q.global.entity ≠ tom) ∧
      ({} : State).load ⟨tom, "p", true⟩ (.ofActions []) ([r, other].foldl upsert b) =
        ({} : State).load ⟨tom, "p", true⟩ (.ofActions []) b := by
  intro mira tom gold b r other stranger
  obtain ⟨hentered, -, hentities, huids, hload⟩ := upsert_by_key b r
  have hglobals : (b.upsert r).globals.length = 3 := hentered.globalsLength
  have hlocals : (b.upsert r).locals.length = 3 := hentered.localsLength
  have hne : r.global.entity ≠ stranger.global.entity := by decide
  have huid : r.own.uid ≠ other.own.uid := by decide
  have hequal : (r.global == other.global) = true := by decide +kernel
  have hothers : ∀ q ∈ [r, other], q.own.entity = q.global.entity ∧ q.global.entity ≠ tom := by
    decide
  exact ⟨hglobals, hlocals, hentered.own _ rfl,
    ⟨rfl, rfl, hne, hentities stranger rfl rfl hne⟩, ⟨huid, hequal, (huids other huid).2 hequal⟩,
    hothers, hload ⟨tom, "p", true⟩ [r, other] hothers {} (.ofActions [])⟩

end Book

end Parley
