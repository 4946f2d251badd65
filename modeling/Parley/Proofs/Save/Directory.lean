/-
  Parley.Proofs.Save.Directory

  What saves do to a directory with any content. The files are bytes under their names, and
  whatever they hold, loading changes none of them, and a save changes none but that of its
  entity (`Save.run_save`). A file that is not text, or holds no book, is left as it is: the save
  is refused. Otherwise the save succeeds if nothing hinders it, the book that was there then
  reads back with the record entered, and every other entity loads as before
  (`Save.save_spares_files`).

  A book that was read has counters that fit 64 bits (`Book.counters_of_decode?`), so that its
  text reads back is assumed of its variables only.
-/
import Parley.Proofs.Json.Spelling
import Parley.Proofs.Save.Folder

namespace Parley

/-! ### Books that were read -/

theorem LocalRecord.counter_of_read {j : Json} {l : LocalRecord} (h : read j = .ok l) :
    l.counter < Nat.pow 2 64 := by
  obtain ⟨⟨type, name, uid, counter, checkpoint, _⟩, hrow, rfl⟩ := Decode.map_eq_ok.1 h
  obtain ⟨-, -, -, hcounter, -⟩ := Fields.gives_of_read hrow
  rcases hcounter with ⟨j, hj⟩ | habsent
  · exact Decode.lt_of_natBelow hj
  · cases habsent
    show 0 < Nat.pow 2 64
    decide

theorem Book.counters_of_read {j : Json} {b : Book} (h : read j = .ok b) :
    ∀ l ∈ b.locals, l.counter < Nat.pow 2 64 := by
  obtain ⟨⟨globals, locals, _⟩, hrow, rfl⟩ := Decode.map_eq_ok.1 h
  obtain ⟨-, hlocals, -⟩ := Fields.gives_of_read hrow
  intro l hl
  rcases hlocals with ⟨j, hj⟩ | habsent
  · cases j with
    | arr js =>
        obtain ⟨j, hj⟩ := Decode.mem_items hj hl
        exact LocalRecord.counter_of_read hj
    | null | bool _ | num _ | str _ | obj _ | unreadable => cases hj
  · cases habsent
    cases hl

theorem Book.counters_of_decode? {text : String} {b : Book} (h : decode? text = some b) :
    ∀ l ∈ b.locals, l.counter < Nat.pow 2 64 := by
  obtain ⟨j, -, hread⟩ := Option.bind_eq_some_iff.1 h
  cases hbook : read j with
  | error e =>
      rw [hbook] at hread
      cases hread
  | ok b =>
      rw [hbook] at hread
      cases hread
      exact counters_of_read hbook

/-! ### Directories -/

/-- The files of a directory: bytes under their names. -/
abbrev Directory := String → Option ByteArray

/-- What keeps a save from succeeding, if anything does: the directory cannot be made, or the
    file is not written to its end and then holds some other bytes, if it was changed at all. -/
structure Hindrance where
  makeDirs : Option Fault := none
  write : Option (Fault × Option ByteArray) := none

namespace Directory

def read (d : Directory) (name : String) : Except Fault String :=
  match d name with
  | none => .error .notFound
  | some bytes =>
    match String.fromUTF8? bytes with
    | some text => .ok text
    | none => .error .notText

def put (d : Directory) (name : String) (bytes : ByteArray) : Directory :=
  fun other => if other = name then some bytes else d other

def write (d : Directory) (hindrance : Hindrance) (name text : String) :
    Except Fault Unit × Directory :=
  match hindrance.write with
  | none => (.ok (), d.put name text.toUTF8)
  | some (fault, none) => (.error fault, d)
  | some (fault, some left) => (.error fault, d.put name left)

/-- The name that a path has in the directory. -/
def nameIn? (base path : String) : Option String :=
  (Path.fileName? path).filter fun name => Path.join base name == path

/-- The disk that has this directory at `base`, and nothing else. -/
def disk (base : String) (hindrance : Hindrance) : Disk (StateM Directory) where
  read path := fun d =>
    match nameIn? base path with
    | none => (.error .notFound, d)
    | some name => (d.read name, d)
  write path text := fun d =>
    match nameIn? base path with
    | none => (.error .notFound, d)
    | some name => d.write hindrance name text
  makeDirs _ := fun d =>
    match hindrance.makeDirs with
    | none => (.ok (), d)
    | some fault => (.error fault, d)

/-- The book of an entity: the empty one if there is no file, and none if the file is not UTF-8 or
    does not decode. -/
def book? (d : Directory) (e : Entity) : Option Book :=
  match d (Save.fileName e) with
  | none => some {}
  | some bytes => (String.fromUTF8? bytes).bind Book.decode?

theorem nameIn?_filePath (base : String) (e : Entity) :
    nameIn? base (Save.filePath base e) = some (Save.fileName e) := by
  rw [nameIn?, Save.fileName?_filePath, Option.filter_some, if_pos]
  simp [Save.filePath]

theorem write_of_ne {d : Directory} {hindrance : Hindrance} {name other : String}
    (h : other ≠ name) (text : String) : (d.write hindrance name text).2 other = d other := by
  unfold write
  split
  · exact if_neg h
  · rfl
  · exact if_neg h

/-- The bytes of a text are UTF-8. -/
theorem fromUTF8?_toUTF8 (s : String) : String.fromUTF8? s.toUTF8 = some s :=
  dif_pos s.isValidUTF8

theorem book?_of_file {d : Directory} {e : Entity} {bytes : ByteArray}
    (h : d (Save.fileName e) = some bytes) :
    d.book? e = (String.fromUTF8? bytes).bind Book.decode? := by
  rw [book?, h]

theorem read_put_toUTF8 (d : Directory) (name text : String) :
    (d.put name text.toUTF8).read name = .ok text := by
  rw [read, put, if_pos rfl]
  simp only [fromUTF8?_toUTF8]

theorem read_put_of_ne {name other : String} (h : other ≠ name) (d : Directory)
    (bytes : ByteArray) : (d.put name bytes).read other = d.read other := by
  rw [read, read, put, if_neg h]

/-- A book is loaded exactly if the file has it. -/
theorem bookOf_read_eq_ok {explain : String → String} {d : Directory} {e : Entity}
    {path : String} {book : Book} :
    Save.bookOf explain path (d.read (Save.fileName e)) = .ok book ↔ d.book? e = some book := by
  rw [read, book?]
  cases d (Save.fileName e) with
  | none => simp [Save.bookOf]
  | some bytes =>
      simp only
      cases String.fromUTF8? bytes with
      | none => simp [Save.bookOf]
      | some text =>
          simp only [Save.bookOf, Option.bind_some]
          cases Book.decode? text <;> simp

theorem counters_of_book? {d : Directory} {e : Entity} {book : Book} (h : d.book? e = some book) :
    ∀ l ∈ book.locals, l.counter < Nat.pow 2 64 := by
  rw [book?] at h
  split at h
  · cases h
    simp
  · obtain ⟨text, -, htext⟩ := Option.bind_eq_some_iff.1 h
    exact Book.counters_of_decode? htext

end Directory

/-! ### Saves -/

namespace Save

open Directory (disk)

variable {explain : String → String}

theorem run_load (base : String) (hindrance : Hindrance) (e : Entity) (d : Directory) :
    ((folder explain (disk base hindrance) base).load e).run d =
      (bookOf explain (filePath base e) (d.read (fileName e)), d) := by
  show (bookOf _ _ ((disk base hindrance).read (filePath base e) d).1,
    ((disk base hindrance).read (filePath base e) d).2) = _
  simp only [disk, Directory.nameIn?_filePath]

/-- A save is refused and changes nothing, or it writes the file of its entity. -/
theorem run_save (base : String) (hindrance : Hindrance) (r : Record) (d : Directory) :
    ((folder explain (disk base hindrance) base).save r).run d =
      match hindrance.makeDirs with
      | some fault => (.error (.io ("Failed to create save directory " ++ base) fault.message), d)
      | none =>
        let path := filePath base r.global.entity
        let name := fileName r.global.entity
        match bookOf explain path (d.read name) with
        | .error error => (.error error, d)
        | .ok book =>
          let written := d.write hindrance name (book.upsert r).encode
          (written.1.mapError fun fault => .io ("Failed to write save file " ++ path) fault.message,
            written.2) := by
  -- The three steps in their order: making the directory, reading the file, writing it.
  simp only [folder, saveTo, disk, StateT.run, bind, StateT.bind, Directory.nameIn?_filePath]
  cases hindrance.makeDirs with
  | some fault => rfl
  | none =>
      simp only [StateT.bind, bind]
      cases bookOf explain (filePath base r.global.entity) (d.read (fileName r.global.entity)) with
      | error error => rfl
      | ok book =>
          simp only [StateT.bind, bind]
          cases d.write hindrance (fileName r.global.entity) (book.upsert r).encode with
          | mk result after => cases result <;> rfl

theorem run_save_of_ne (base : String) (hindrance : Hindrance) {r : Record} {name : String}
    (h : name ≠ fileName r.global.entity) (d : Directory) :
    (((folder explain (disk base hindrance) base).save r).run d).2 name = d name := by
  rw [run_save]
  split
  · rfl
  · dsimp only
    split
    · rfl
    · exact Directory.write_of_ne h _

theorem run_save_of_unreadable (base : String) (hindrance : Hindrance) {r : Record} {d : Directory}
    (h : d.book? r.global.entity = none) :
    ∃ error, ((folder explain (disk base hindrance) base).save r).run d = (.error error, d) := by
  rw [run_save]
  split
  · exact ⟨_, rfl⟩
  · dsimp only
    split
    · exact ⟨_, rfl⟩
    · rename_i book hbook
      rw [Directory.bookOf_read_eq_ok.1 hbook] at h
      cases h

theorem run_save_of_book (base : String) {hindrance : Hindrance} (hmake : hindrance.makeDirs = none)
    (hwrite : hindrance.write = none) {r : Record} {d : Directory} {book : Book}
    (h : d.book? r.global.entity = some book) :
    ((folder explain (disk base hindrance) base).save r).run d =
      (.ok (), d.put (fileName r.global.entity) (book.upsert r).encode.toUTF8) := by
  have hbook : bookOf explain (filePath base r.global.entity) (d.read (fileName r.global.entity)) =
      .ok book := Directory.bookOf_read_eq_ok.2 h
  simp only [run_save, hmake, hbook, Directory.write, hwrite]
  rfl

/-- A book that was written loads as an equal one. -/
theorem run_load_written (base : String) (hindrance : Hindrance) (e : Entity) (d : Directory)
    {book : Book} (h : book.Legible) :
    ((folder explain (disk base hindrance) base).load e).run
        (d.put (fileName e) book.encode.toUTF8) =
      (.ok book.plain, d.put (fileName e) book.encode.toUTF8) := by
  rw [run_load, Directory.read_put_toUTF8, bookOf, Book.decode?_of_legible h]

/-- Whatever a directory holds: loading changes no file, and a save changes none but that of its
    entity. If this file is not UTF-8 or does not decode, the save is an error and changes no file
    at all. Else, if the directory can be made and the file can be written, the save succeeds; the
    entity then loads as the book that it had (the empty one if there was no file) with the record
    entered, and all others load as before. -/
theorem save_spares_files (explain : String → String) (base : String) (hindrance : Hindrance)
    (d : Directory) (r : Record) :
    let store := folder explain (disk base hindrance) base
    let own := r.global.entity
    (∀ e, ((store.load e).run d).2 = d) ∧
      (∀ name, name ≠ fileName own → ((store.save r).run d).2 name = d name) ∧
      (d.book? own = none → ∃ error, (store.save r).run d = (.error error, d)) ∧
      ∀ book, d.book? own = some book → hindrance.makeDirs = none → hindrance.write = none →
        ∃ after, (store.save r).run d = (.ok (), after) ∧
          (∀ name, name ≠ fileName own → after name = d name) ∧
          (∀ e, e ≠ own → ((store.load e).run after).1 = ((store.load e).run d).1) ∧
          ((store.load own).run d).1 = .ok book ∧
          (r.Legible → (∀ g ∈ book.globals, g.scope.Legible) →
            ∃ loaded, ((store.load own).run after).1 = .ok loaded ∧
              (loaded == book.upsert r) = true) := by
  intro store own
  refine ⟨?_, ?_, run_save_of_unreadable base hindrance, ?_⟩
  · intro e
    rw [run_load]
  · intro name hname
    exact run_save_of_ne base hindrance hname d
  · intro book hbook hmake hwrite
    refine ⟨_, run_save_of_book base hmake hwrite hbook, ?_, ?_, ?_, ?_⟩
    · intro name hname
      exact if_neg hname
    · intro e he
      -- Another entity has another file, which was not written.
      have hname : fileName e ≠ fileName own := fun h => he (fileName_injective h)
      rw [run_load, run_load, Directory.read_put_of_ne hname]
    · rw [run_load]
      exact Directory.bookOf_read_eq_ok.2 hbook
    · intro hr hglobals
      -- The counters of the book were read, so they fit.
      have hlegible : (book.upsert r).Legible :=
        Book.Legible.upsert ⟨hglobals, Directory.counters_of_book? hbook⟩ hr
      refine ⟨(book.upsert r).plain, ?_, Book.plain_beq hlegible⟩
      rw [run_load_written base hindrance own d hlegible]

/-- A directory with the file of a book, and one that is not UTF-8: saves of the second entity are
    refused, those of the first succeed next to it. -/
theorem save_spares_files_damaged :
    let explain (_ : String) := "expected value at line 1 column 1"
    let mira : Entity := ⟨"npc", "Mira"⟩
    let lost : Entity := ⟨"npc", "%"⟩
    let book : Book := ⟨[⟨mira, .ofList [("x", .number 0.1)]⟩], [⟨mira, "p", 3, none⟩]⟩
    let d : Directory := fun name =>
      if name = fileName mira then some book.encode.toUTF8
      else if name = fileName lost then some ⟨#[0xFF]⟩
      else none
    let store := folder explain (disk "saves" {}) "saves"
    let refused : Record := ⟨⟨lost, .empty⟩, ⟨lost, "p", 0, none⟩⟩
    let taken : Record := ⟨⟨mira, .ofList [("y", .text "é")]⟩, ⟨mira, "q", 1, some "end"⟩⟩
    (∃ error, (store.save refused).run d = (.error error, d)) ∧
      ∃ after loaded, (store.save taken).run d = (.ok (), after) ∧
        after (fileName lost) = d (fileName lost) ∧
        ((store.load mira).run after).1 = .ok loaded ∧
        (loaded == book.plain.upsert taken) = true := by
  intro explain mira lost book d store refused taken
  have hlegible : book.Legible := ⟨by decide +kernel, by decide⟩
  have hne : fileName lost ≠ fileName mira := by decide +kernel
  have hdamaged : d.book? lost = none := by
    have hbytes : d (fileName lost) = some ⟨#[0xFF]⟩ := by
      simp only [d, if_neg hne, if_true]
    have hnot : String.fromUTF8? ⟨#[0xFF]⟩ = none := by decide +kernel
    rw [Directory.book?_of_file hbytes, hnot, Option.bind_none]
  have hbook : d.book? mira = some book.plain := by
    have hbytes : d (fileName mira) = some book.encode.toUTF8 := if_pos rfl
    rw [Directory.book?_of_file hbytes, Directory.fromUTF8?_toUTF8, Option.bind_some,
      Book.decode?_of_legible hlegible]
  obtain ⟨-, -, hrefused, -⟩ := save_spares_files explain "saves" {} d refused
  obtain ⟨-, -, -, htaken⟩ := save_spares_files explain "saves" {} d taken
  obtain ⟨after, hsave, hsame, -, -, hload⟩ := htaken book.plain hbook rfl rfl
  obtain ⟨loaded, hloaded, hequal⟩ := hload (by decide +kernel) (by decide +kernel)
  exact ⟨hrefused hdamaged, after, loaded, hsave, hsame _ hne, hloaded, hequal⟩

end Save

end Parley
