/-
  Parley.Proofs.Save.Folder

  The store in a directory and the store in memory are the same store. On a disk that refuses
  nothing, every save succeeds in both, and both then load equal books: the last global record
  of the entity, the last local record of each of its sessions, and nothing else
  (`folder_agrees_with_memory`).

  What carries the proof is the relation between the files and the memory (`Mirrors`): the file
  of an entity holds the text of the entity's book, and an entity without book has no file. A
  save keeps it, since a book that was read from its text is written like the book itself, and
  the file of another entity has another path.
-/
import Parley.Proofs.Save.Text
import Parley.Proofs.Save.FileName

namespace Parley

/-! ### Books -/

namespace Book

theorem Legible.upsert {b : Book} (hb : b.Legible) {r : Record} (hr : r.Legible) :
    (b.upsert r).Legible where
  globals g hg := by
    rcases mem_replaceFirst hg with rfl | hg
    · exact hr.scope
    · exact hb.globals g hg
  locals l hl := by
    rcases mem_replaceFirst hl with rfl | hl
    · exact hr.counter
    · exact hb.locals l hl

/-- A change that neither the key nor the image shows is not seen by an update. -/
theorem map_replaceFirst_map {α β : Type} {same : α → Bool} {new : α} {g : α → β} (f : α → α)
    (hsame : ∀ a, same (f a) = same a) (himage : ∀ a, g (f a) = g a) (l : List α) :
    (replaceFirst same new (l.map f)).map g = (replaceFirst same new l).map g := by
  induction l with
  | nil => rfl
  | cons a l ih =>
      rw [List.map_cons, replaceFirst, replaceFirst, hsame]
      split
      · simp [himage]
      · rw [List.map_cons, List.map_cons, himage, ih]

/-- Entering a record into the plain form of a book gives the same text. -/
theorem encode_plain_upsert (b : Book) (r : Record) :
    (b.plain.upsert r).encode = (b.upsert r).encode := by
  have hglobals : (b.plain.upsert r).globals.map GlobalRecord.toJson =
      (b.upsert r).globals.map GlobalRecord.toJson :=
    map_replaceFirst_map .plain (fun _ => rfl) GlobalRecord.toJson_plain b.globals
  have hlocals : (b.plain.upsert r).locals = (b.upsert r).locals := rfl
  rw [encode, encode, toJson, toJson, hglobals, hlocals]

end Book

/-! ### Replaying saves -/

/-- Saves the records one after another, and then loads the book of an entity. -/
def Store.replay {m : Type → Type} [Monad m] (store : Store m) (saves : List Record) (e : Entity) :
    m (List (Except StoreError Unit) × Except StoreError Book) := do
  let answers ← saves.mapM store.save
  return (answers, ← store.load e)

theorem Store.run_replay {σ : Type} {store : Store (StateM σ)} {saves : List Record} {e : Entity}
    {w between after : σ} {answers : List (Except StoreError Unit)} {book : Except StoreError Book}
    (hsaves : (saves.mapM store.save).run w = (answers, between))
    (hload : (store.load e).run between = (book, after)) :
    (store.replay saves e).run w = ((answers, book), after) := by
  rw [replay, StateT.run_bind, hsaves]
  show (store.load e >>= fun book => pure (answers, book)).run between = _
  rw [StateT.run_bind, hload]
  rfl

/-- Texts under their paths. -/
abbrev Files := String → Option String

namespace Files

def read (files : Files) (path : String) : Except Fault String :=
  match files path with
  | some text => .ok text
  | none => .error .notFound

def write (files : Files) (path text : String) : Files :=
  fun other => if other = path then some text else files other

/-- A disk that refuses nothing. -/
def disk : Disk (StateM Files) where
  read path := do return (← get).read path
  write path text := do
    modify (·.write path text)
    return .ok ()
  makeDirs _ := return .ok ()

end Files

namespace Save

variable {explain : String → String}

theorem run_loadFrom (base : String) (e : Entity) (files : Files) :
    (loadFrom explain Files.disk base e).run files =
      (bookOf explain (filePath base e) (files.read (filePath base e)), files) := rfl

/-- A save writes the file of its entity if that reads as a book, and else changes nothing. -/
theorem run_saveTo (base : String) (r : Record) (files : Files) :
    (saveTo explain Files.disk base r).run files =
      match bookOf explain (filePath base r.global.entity)
        (files.read (filePath base r.global.entity)) with
      | .error e => (.error e, files)
      | .ok book =>
        (.ok (), files.write (filePath base r.global.entity) (book.upsert r).encode) := by
  simp only [saveTo, Files.disk, StateT.run_bind, StateT.run_pure, StateT.run_get, pure_bind]
  cases bookOf explain (filePath base r.global.entity)
    (files.read (filePath base r.global.entity)) with
  | error e => rfl
  | ok book => rfl

/-- The files hold the books of the memory. -/
structure Mirrors (base : String) (files : Files) (memory : Memory) : Prop where
  file : ∀ e, files (filePath base e) = (memory.books.lookup e).map Book.encode
  legible : ∀ e, (memory.load e).Legible

namespace Mirrors

variable {base : String} {files : Files} {memory : Memory}

/-- What is read from the file of an entity is its book, in plain form. -/
theorem bookOf_read (h : Mirrors base files memory) (e : Entity) (path : String) :
    bookOf explain path (files.read (filePath base e)) = .ok (memory.load e).plain := by
  have hlegible := h.legible e
  rw [Files.read, h.file e]
  rw [Memory.load] at hlegible ⊢
  cases hbook : memory.books.lookup e with
  | none => rfl
  | some book =>
      rw [hbook, Option.getD_some] at hlegible
      simp only [Option.map_some, Option.getD_some, bookOf, Book.decode?_of_legible hlegible]

theorem load (h : Mirrors base files memory) (e : Entity) :
    (loadFrom explain Files.disk base e).run files = (.ok (memory.load e).plain, files) := by
  rw [run_loadFrom, h.bookOf_read]

/-- A save that the memory takes succeeds on the disk. -/
theorem save (h : Mirrors base files memory) {r : Record} (hr : r.Legible) :
    ∃ files', (saveTo explain Files.disk base r).run files = (.ok (), files') ∧
      Mirrors base files' (memory.save r) := by
  rw [run_saveTo, h.bookOf_read]
  refine ⟨_, rfl, ?_, ?_⟩
  · intro e
    rw [Book.encode_plain_upsert, Memory.save]
    by_cases he : e = r.global.entity
    · subst he
      rw [Memory.lookup_replaceFirst, Files.write, if_pos rfl]
      rfl
    · -- Another entity has another file.
      have hpath : filePath base e ≠ filePath base r.global.entity :=
        fun heq => he (filePath_injective base heq)
      rw [Memory.lookup_replaceFirst_of_ne he, Files.write, if_neg hpath]
      exact h.file e
  · intro e
    by_cases he : e = r.global.entity
    · rw [he, Memory.load_save_self]
      exact (h.legible _).upsert hr
    · rw [Memory.load_save_of_ne _ he]
      exact h.legible e

end Mirrors

theorem mirrors_empty (base : String) : Mirrors base (fun _ => none) {} where
  file _ := rfl
  legible _ := ⟨by simp [Memory.load], by simp [Memory.load]⟩

/-- A walk along a list is a step and then a walk along the rest. -/
theorem run_mapM_cons {σ α β : Type} {f : α → StateM σ β} {a : α} {l : List α} {b : β} {bs : List β}
    {w between after : σ} (hfirst : (f a).run w = (b, between))
    (hrest : (l.mapM f).run between = (bs, after)) :
    ((a :: l).mapM f).run w = (b :: bs, after) := by
  rw [List.mapM_cons, StateT.run_bind, hfirst]
  show (l.mapM f >>= fun bs => pure (b :: bs)).run between = _
  rw [StateT.run_bind, hrest]
  rfl

/-- After any saves the files still hold the books of the memory. -/
theorem run_saves {base : String} {files : Files} {memory : Memory} {saves : List Record}
    (h : Mirrors base files memory) (hlegible : ∀ r ∈ saves, r.Legible) :
    ∃ files', (saves.mapM (folder explain Files.disk base).save).run files =
        (saves.map fun _ => .ok (), files') ∧
      Mirrors base files' (saves.foldl Memory.save memory) := by
  induction saves generalizing files memory with
  | nil => exact ⟨files, rfl, h⟩
  | cons r saves ih =>
      obtain ⟨between, hsave, hbetween⟩ := h.save (hlegible r List.mem_cons_self)
      obtain ⟨after, hsaves, hafter⟩ :=
        ih hbetween fun s hs => hlegible s (List.mem_cons_of_mem r hs)
      exact ⟨after, run_mapM_cons hsave hsaves, hafter⟩

theorem run_memory_saves (memory : Memory) (saves : List Record) :
    (saves.mapM Memory.store.save).run memory =
      (saves.map fun _ => .ok (), saves.foldl Memory.save memory) := by
  induction saves generalizing memory with
  | nil => rfl
  | cons r saves ih => exact run_mapM_cons rfl (ih (memory.save r))

end Save

/-! ### What a book holds -/

/-- The last of the saves that `p` marks. -/
def lastSave (p : Record → Bool) (saves : List Record) : Option Record := saves.reverse.find? p

theorem lastSave_concat (p : Record → Bool) (saves : List Record) (r : Record) :
    lastSave p (saves ++ [r]) = if p r then some r else lastSave p saves := by
  rw [lastSave, List.reverse_concat, List.find?_cons]
  cases p r <;> rfl

theorem lastSave_map {p : Record → Bool} {f : Record → Record} (h : ∀ r, p (f r) = p r)
    (saves : List Record) : lastSave p (saves.map f) = (lastSave p saves).map f := by
  have hp : p ∘ f = p := funext h
  rw [lastSave, ← List.map_reverse, List.find?_map, hp, lastSave]

/-- The book is that of the entity after the saves: under each key the last record that was
    saved, and nothing else. -/
structure Book.Holds (b : Book) (e : Entity) (saves : List Record) : Prop where
  global : b.findGlobal e = (lastSave (·.global.entity == e) saves).map (·.global)
  own : ∀ uid isDay, b.findLocal ⟨e, uid, isDay⟩ =
    (lastSave (fun r => r.global.entity == e && r.own.uid == uid) saves).map (·.own)
  keyed : b.Keyed
  entities : (∀ g ∈ b.globals, g.entity = e) ∧ ∀ l ∈ b.locals, l.entity = e
  unsaved : (∀ r ∈ saves, r.global.entity ≠ e) → b = {}

namespace Book.Holds

variable {b : Book} {e : Entity} {saves : List Record} {r : Record}

theorem empty (e : Entity) : Holds {} e [] where
  global := rfl
  own _ _ := rfl
  keyed := ⟨List.nodup_nil, List.nodup_nil⟩
  entities := by simp
  unsaved _ := rfl

/-- A save of the entity. -/
theorem upsert (h : b.Holds e saves) (hglobal : r.global.entity = e) (hown : r.own.entity = e) :
    (b.upsert r).Holds e (saves ++ [r]) where
  global := by
    rw [lastSave_concat, if_pos (by simp [hglobal]), ← hglobal, findGlobal_upsert]
    rfl
  own uid isDay := by
    rw [lastSave_concat]
    by_cases huid : r.own.uid = uid
    · rw [if_pos (by simp [hglobal, huid]), findLocal_upsert]
      · rfl
      · simp [LocalRecord.isOf, hown, huid]
    · rw [if_neg (by simp [huid]), findLocal_upsert_of_ne, h.own]
      simp [LocalRecord.isOf, huid]
  keyed := h.keyed.upsert r
  entities := by
    refine ⟨fun g hg => ?_, fun l hl => ?_⟩
    · rcases mem_replaceFirst hg with rfl | hg
      · exact hglobal
      · exact h.entities.1 g hg
    · rcases mem_replaceFirst hl with rfl | hl
      · exact hown
      · exact h.entities.2 l hl
  unsaved hne := absurd hglobal (hne r (by simp))

/-- A save of another entity. -/
theorem other (h : b.Holds e saves) (hglobal : r.global.entity ≠ e) : b.Holds e (saves ++ [r]) where
  global := by rw [lastSave_concat, if_neg (by simp [hglobal]), h.global]
  own uid isDay := by rw [lastSave_concat, if_neg (by simp [hglobal]), h.own]
  keyed := h.keyed
  entities := h.entities
  unsaved hne := h.unsaved fun s hs => hne s (by simp [hs])

/-- The plain form holds the plain forms. -/
theorem plain (h : b.Holds e saves) : b.plain.Holds e (saves.map Record.plain) where
  global := by
    have hfind : b.plain.findGlobal e = (b.findGlobal e).map GlobalRecord.plain := List.find?_map ..
    have hlast := lastSave_map (p := fun r => r.global.entity == e) (f := Record.plain)
      (fun _ => rfl) saves
    rw [hfind, h.global, hlast, Option.map_map, Option.map_map]
    rfl
  own uid isDay := by
    have hlast := lastSave_map (p := fun r => r.global.entity == e && r.own.uid == uid)
      (f := Record.plain) (fun _ => rfl) saves
    rw [hlast, Option.map_map]
    exact h.own uid isDay
  keyed := by
    refine ⟨?_, h.keyed.locals⟩
    have hkeys : b.plain.globals.map (·.entity) = b.globals.map (·.entity) := List.map_map
    rw [hkeys]
    exact h.keyed.globals
  entities := by
    refine ⟨fun g hg => ?_, h.entities.2⟩
    obtain ⟨g, hmem, rfl⟩ := List.mem_map.1 hg
    exact h.entities.1 g hmem
  unsaved hne := by
    rw [h.unsaved fun r hr => hne r.plain (List.mem_map_of_mem hr)]
    rfl

end Book.Holds

/-- What the memory holds after any saves. -/
theorem Memory.holds_saved {saves : List Record}
    (hentity : ∀ r ∈ saves, r.own.entity = r.global.entity) (e : Entity) :
    ((saves.foldl save {}).load e).Holds e saves := by
  induction saves using List.reverseRecOn with
  | nil => exact .empty e
  | append_singleton saves r ih =>
      have hsaves := ih fun s hs => hentity s (List.mem_append_left _ hs)
      rw [List.foldl_concat]
      by_cases he : r.global.entity = e
      · subst he
        rw [load_save_self]
        exact hsaves.upsert rfl (hentity r (by simp))
      · rw [load_save_of_ne _ (Ne.symm he)]
        exact hsaves.other he

/-! ### The two stores -/

namespace Save

/-- Of records whose parts name the same entity, and that are legible, every save succeeds in
    both stores, and after all of them both load equal books for every entity: the book in
    memory holds the last saves, and the book in the directory holds them as they read back,
    which is equal to what was saved. -/
theorem folder_agrees_with_memory (explain : String → String) (base : String)
    {saves : List Record} (hentity : ∀ r ∈ saves, r.own.entity = r.global.entity)
    (hlegible : ∀ r ∈ saves, r.Legible) (e : Entity) :
    ∃ filed kept : Book,
      (((folder explain Files.disk base).replay saves e).run fun _ => none).1 =
          (saves.map fun _ => .ok (), .ok filed) ∧
        ((Memory.store.replay saves e).run {}).1 = (saves.map fun _ => .ok (), .ok kept) ∧
        (filed == kept) = true ∧ kept.Holds e saves ∧
        filed.Holds e (saves.map Record.plain) ∧ ∀ r ∈ saves, (r.plain == r) = true := by
  obtain ⟨files, hsaves, hmirrors⟩ := run_saves (mirrors_empty base) hlegible
  let kept := (saves.foldl Memory.save {}).load e
  have hkept : kept.Holds e saves := Memory.holds_saved hentity e
  have hplain : (kept.plain == kept) = true := Book.plain_beq (hmirrors.legible e)
  refine ⟨kept.plain, kept, ?_, ?_, hplain, hkept, hkept.plain, fun r hr =>
    Record.plain_beq (hlegible r hr)⟩
  · rw [Store.run_replay hsaves (hmirrors.load e)]
  · rw [Store.run_replay (run_memory_saves {} saves) rfl]

/-- Saves of three entities whose names could be taken for one another, two of them of one session
    and one of another session of the same entity. -/
theorem folder_agrees_on_similar_names :
    let explain (_ : String) := "expected value at line 1 column 1"
    let mira : Entity := ⟨"a__b", "%5F"⟩
    let first : Record := ⟨⟨mira, .ofList [("x", .number 0.1)]⟩, ⟨mira, "p", 3, none⟩⟩
    let other : Record := ⟨⟨⟨"a", "b__%5F"⟩, .empty⟩, ⟨⟨"a", "b__%5F"⟩, "p", 1, none⟩⟩
    let third : Record := ⟨⟨⟨"a_", "_b__%5F"⟩, .empty⟩, ⟨⟨"a_", "_b__%5F"⟩, "p", 2, some "q"⟩⟩
    let second : Record := ⟨⟨mira, .ofList [("x", .number (-0.0))]⟩, ⟨mira, "q", 0, some "\"/"⟩⟩
    let last : Record := ⟨⟨mira, .ofList [("y", .list ["\x7b", ""])]⟩, ⟨mira, "p", 9, none⟩⟩
    let saves := [first, other, third, second, last]
    (∀ r ∈ saves, r.own.entity = r.global.entity) ∧ (∀ r ∈ saves, r.Legible) ∧
      ∃ filed kept : Book,
        (((folder explain Files.disk "saves").replay saves mira).run fun _ => none).1 =
            (saves.map fun _ => .ok (), .ok filed) ∧
          ((Memory.store.replay saves mira).run {}).1 = (saves.map fun _ => .ok (), .ok kept) ∧
          (filed == kept) = true ∧ kept.Holds mira saves ∧
          filed.Holds mira (saves.map Record.plain) ∧ ∀ r ∈ saves, (r.plain == r) = true := by
  intro explain mira first other third second last saves
  have hentity : ∀ r ∈ saves, r.own.entity = r.global.entity := by decide +kernel
  have hlegible : ∀ r ∈ saves, r.Legible := by decide +kernel
  exact ⟨hentity, hlegible, folder_agrees_with_memory explain "saves" hentity hlegible mira⟩

end Save

end Parley
