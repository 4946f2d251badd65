/-
  Parley.Proofs.Save.FileName

  Distinct entities have distinct files. The encoding of a byte is never the beginning of the
  encoding of another, and no encoding begins with an underscore; so the first underscore of a
  file name ends the type of the entity, and both parts can be told from the name
  (`fileName_injective`, `filePath_injective`).

  An encoding is made of ASCII letters, digits, `-` and `%`, so a file name holds no slash and is
  neither `.` nor `..`: it names a file directly in the directory of the store
  (`parts_filePath`).
-/
import Parley.Save.Folder
import Parley.Proofs.Disk.Path

namespace Parley.Save

/-! ### Bytes -/

theorem hexDigit_inj {m n : Nat} (hm : m < 16) (hn : n < 16) (h : hexDigit m = hexDigit n) :
    m = n := by
  have hall : ∀ m < 16, ∀ n < 16, hexDigit m = hexDigit n → m = n := by decide
  exact hall m hm n hn h

theorem toNat_charOfByte (b : UInt8) : (Char.ofNat b.toNat).toNat = b.toNat := by
  have hb := b.toNat_lt
  have hvalid : b.toNat.isValidChar := .inl (by omega)
  rw [Char.ofNat, dif_pos hvalid]
  rfl

theorem charOfByte_inj {a b : UInt8} (h : Char.ofNat a.toNat = Char.ofNat b.toNat) : a = b := by
  have hnat := congrArg Char.toNat h
  rw [toNat_charOfByte, toNat_charOfByte] at hnat
  exact UInt8.toNat_inj.1 hnat

/-- The mark of an encoded byte does not stand for itself, and neither does the underscore. -/
theorem charOfByte_ne {b : UInt8} (h : isPlain b = true) :
    Char.ofNat b.toNat ≠ '%' ∧ Char.ofNat b.toNat ≠ '_' := by
  refine ⟨fun heq => ?_, fun heq => ?_⟩
  · have hb : b = 0x25 := charOfByte_inj heq
    rw [hb] at h
    exact absurd h (by decide)
  · have hb : b = 0x5F := charOfByte_inj heq
    rw [hb] at h
    exact absurd h (by decide)

/-- The encoding of one byte is no beginning of the encoding of another. -/
theorem encodeByte_append_inj {a b : UInt8} {x y : List Char}
    (h : encodeByte a ++ x = encodeByte b ++ y) : a = b ∧ x = y := by
  rw [encodeByte, encodeByte] at h
  split at h <;> split at h
  · obtain ⟨hchar, htail⟩ := List.cons.inj h
    exact ⟨charOfByte_inj hchar, htail⟩
  · rename_i ha _
    exact absurd (List.cons.inj h).1 (charOfByte_ne ha).1
  · rename_i _ hb
    exact absurd (List.cons.inj h).1.symm (charOfByte_ne hb).1
  · simp only [List.cons_append, List.nil_append, List.cons.injEq, true_and] at h
    obtain ⟨hhigh, hlow, htail⟩ := h
    have ha := a.toNat_lt
    have hb := b.toNat_lt
    have hdiv := hexDigit_inj (by omega) (by omega) hhigh
    have hmod := hexDigit_inj (by omega) (by omega) hlow
    exact ⟨UInt8.toNat_inj.1 (by omega), htail⟩

/-- An encoded byte does not begin with an underscore. -/
theorem encodeByte_ne_underscore (b : UInt8) (x y : List Char) : encodeByte b ++ x ≠ '_' :: y := by
  intro h
  rw [encodeByte] at h
  split at h
  · rename_i hb
    exact (charOfByte_ne hb).2 (List.cons.inj h).1
  · exact absurd (List.cons.inj h).1 (by decide)

theorem isAlphanum_hexDigit {n : Nat} (h : n < 16) : (hexDigit n).isAlphanum = true := by
  have hall : ∀ n < 16, (hexDigit n).isAlphanum = true := by decide
  exact hall n h

theorem isAlphanum_of_isPlain {b : UInt8} (h : isPlain b = true) :
    (Char.ofNat b.toNat).isAlphanum = true ∨ Char.ofNat b.toNat = '-' := by
  have hall : ∀ high < 16, ∀ low < 16, isPlain (UInt8.ofNat (16 * high + low)) = true →
      (Char.ofNat (16 * high + low)).isAlphanum = true ∨ Char.ofNat (16 * high + low) = '-' := by
    decide +kernel
  have hlt := b.toNat_lt
  have hb := hall (b.toNat / 16) (by omega) (b.toNat % 16) (by omega)
  rw [Nat.div_add_mod, UInt8.ofNat_toNat] at hb
  exact hb h

/-- A byte is encoded in ASCII letters, digits, `-` and `%`. -/
theorem mem_encodeByte {b : UInt8} {c : Char} (h : c ∈ encodeByte b) :
    c.isAlphanum = true ∨ c = '-' ∨ c = '%' := by
  have hlt := b.toNat_lt
  rw [encodeByte] at h
  split at h
  · rename_i hplain
    rw [List.mem_singleton.1 h]
    exact (isAlphanum_of_isPlain hplain).imp_right .inl
  · simp only [List.mem_cons, List.not_mem_nil, or_false] at h
    rcases h with rfl | rfl | rfl
    · exact .inr (.inr rfl)
    · exact .inl (isAlphanum_hexDigit (by omega))
    · exact .inl (isAlphanum_hexDigit (by omega))

/-! ### Texts -/

/-- An underscore ends the encoded bytes before it. -/
theorem encodeBytes_inj {bytes others : List UInt8} {x y : List Char}
    (h : bytes.flatMap encodeByte ++ '_' :: x = others.flatMap encodeByte ++ '_' :: y) :
    bytes = others ∧ x = y := by
  induction bytes generalizing others with
  | nil =>
      cases others with
      | nil => exact ⟨rfl, (List.cons.inj h).2⟩
      | cons b others =>
          rw [List.flatMap_cons, List.append_assoc] at h
          exact absurd h.symm (encodeByte_ne_underscore b _ x)
  | cons a bytes ih =>
      cases others with
      | nil =>
          rw [List.flatMap_cons, List.append_assoc] at h
          exact absurd h (encodeByte_ne_underscore a _ y)
      | cons b others =>
          rw [List.flatMap_cons, List.flatMap_cons, List.append_assoc, List.append_assoc] at h
          obtain ⟨rfl, htail⟩ := encodeByte_append_inj h
          obtain ⟨rfl, hrest⟩ := ih htail
          exact ⟨rfl, hrest⟩

theorem toList_loop (bytes : ByteArray) (i : Nat) (done : List UInt8) :
    ByteArray.toList.loop bytes i done = done.reverse ++ bytes.data.toList.drop i := by
  fun_induction ByteArray.toList.loop bytes i done with
  | case1 i done hi ih =>
      have hlength : i < bytes.data.toList.length := by simpa using hi
      have hget : bytes.get! i = bytes.data.toList.get ⟨i, hlength⟩ := by
        show bytes.data[i]! = _
        rw [getElem!_pos bytes.data i (by simpa using hlength)]
        rfl
      rw [ih, hget, List.drop_eq_getElem_cons hlength, List.reverse_cons, List.append_assoc]
      rfl
  | case2 i done hi =>
      have hlength : bytes.data.toList.length ≤ i := by simpa using hi
      rw [List.drop_eq_nil_of_le hlength, List.append_nil]

/-- A text is determined by its bytes. -/
theorem utf8_inj {s t : String} (h : s.toUTF8.toList = t.toUTF8.toList) : s = t := by
  have hlist : ∀ bytes : ByteArray, bytes.toList = bytes.data.toList := fun bytes => by
    rw [ByteArray.toList, toList_loop]
    rfl
  rw [hlist, hlist, Array.toList_inj] at h
  exact String.toByteArray_inj.1 (ByteArray.ext h)

theorem encodePart_inj {s t : String} {x y : List Char}
    (h : encodePart s ++ '_' :: x = encodePart t ++ '_' :: y) : s = t ∧ x = y := by
  obtain ⟨hbytes, hrest⟩ := encodeBytes_inj h
  exact ⟨utf8_inj hbytes, hrest⟩

/-! ### Files -/

theorem fileName_injective : Function.Injective fileName := by
  intro e f h
  have hlist : encodePart e.type ++ '_' :: '_' :: (encodePart e.name ++ ".save.json".toList) =
      encodePart f.type ++ '_' :: '_' :: (encodePart f.name ++ ".save.json".toList) := by
    have hchars := congrArg String.toList h
    simp only [fileName, String.toList_append, String.toList_ofList, List.append_assoc] at hchars
    exact hchars
  obtain ⟨htype, hrest⟩ := encodePart_inj hlist
  have hparts : encodePart e.name = encodePart f.name :=
    List.append_cancel_right (List.cons.inj hrest).2
  have hname : e.name = f.name := by
    have hclosed : encodePart e.name ++ ['_'] = encodePart f.name ++ ['_'] := by rw [hparts]
    exact (encodePart_inj hclosed).1
  cases e
  cases f
  cases htype
  cases hname
  rfl

theorem append_left_cancel {dir a b : String} (h : dir ++ a = dir ++ b) : a = b := by
  have hlist := congrArg String.toList h
  rw [String.toList_append, String.toList_append] at hlist
  exact String.toList_inj.1 (List.append_cancel_left hlist)

theorem join_injective (dir : String) : Function.Injective (Path.join dir) := by
  intro a b h
  unfold Path.join at h
  split at h
  · exact h
  · split at h
    · exact append_left_cancel h
    · rw [String.append_assoc, String.append_assoc] at h
      exact append_left_cancel (append_left_cancel h)

theorem filePath_injective (base : String) : Function.Injective (filePath base) := by
  intro e f h
  exact fileName_injective (join_injective base h)

theorem mem_encodePart {s : String} {c : Char} (h : c ∈ encodePart s) :
    c.isAlphanum = true ∨ c = '-' ∨ c = '%' := by
  obtain ⟨b, -, hc⟩ := List.mem_flatMap.1 h
  exact mem_encodeByte hc

/-- The part of a file name before its ending. -/
def stem (e : Entity) : String :=
  String.ofList (encodePart e.type) ++ "__" ++ String.ofList (encodePart e.name)

theorem fileName_eq (e : Entity) : fileName e = stem e ++ ".save.json" := rfl

theorem mem_stem {e : Entity} {c : Char} (h : c ∈ (stem e).toList) :
    c.isAlphanum = true ∨ c = '-' ∨ c = '%' ∨ c = '_' := by
  have hsplit : c ∈ encodePart e.type ∨ c = '_' ∨ c ∈ encodePart e.name := by
    simpa [stem] using h
  rcases hsplit with h | h | h
  · rcases mem_encodePart h with h | h | h <;> simp [h]
  · simp [h]
  · rcases mem_encodePart h with h | h | h <;> simp [h]

theorem slash_not_mem_fileName (e : Entity) : '/' ∉ (fileName e).toList := by
  intro hmem
  rw [fileName_eq, String.toList_append, List.mem_append] at hmem
  rcases hmem with hmem | hmem
  · exact absurd (mem_stem hmem) (by decide)
  · exact absurd hmem (by decide)

/-- The ending keeps a file name apart from the names that lead elsewhere. -/
theorem fileName_ne {name : String} (hshort : name.length < 10) (e : Entity) :
    fileName e ≠ name := by
  rintro rfl
  have hlength : (fileName e).length = (stem e).length + 10 := by
    rw [fileName_eq, String.length_append]
    rfl
  omega

theorem parts_filePath (base : String) (e : Entity) :
    Path.parts (filePath base e) = Path.names base ++ [fileName e] :=
  Path.parts_join base (slash_not_mem_fileName e) (fileName_ne (by decide) e)

theorem fileName?_filePath (base : String) (e : Entity) :
    Path.fileName? (filePath base e) = some (fileName e) :=
  Path.fileName?_join base (slash_not_mem_fileName e) (fileName_ne (by decide) e)
    (fileName_ne (by decide) e) (fileName_ne (by decide) e)

/-- Two entities have the same file name only if they are the same, whatever stands in their
    types and names. And a file name is made of ASCII letters, digits, `-`, `%` and `_` with a
    fixed ending, so that in every base directory it names a file directly below: the path of the
    file has the names of the directory, and behind them the file name, which is none of those
    that stand for another directory. -/
theorem file_names_apart :
    (∀ type name type' name' : String,
      fileName ⟨type, name⟩ = fileName ⟨type', name'⟩ ↔ type = type' ∧ name = name') ∧
    ∀ e : Entity,
      (∃ stem : String, fileName e = stem ++ ".save.json" ∧
        ∀ c ∈ stem.toList, c.isAlphanum = true ∨ c = '-' ∨ c = '%' ∨ c = '_') ∧
      ('/' ∉ (fileName e).toList ∧ fileName e ∉ ["", ".", ".."]) ∧
      ∀ base : String, Path.parts (filePath base e) = Path.names base ++ [fileName e] := by
  refine ⟨fun type name type' name' => ?_, fun e => ⟨?_, ?_, fun base => parts_filePath base e⟩⟩
  · constructor
    · intro h
      cases fileName_injective h
      exact ⟨rfl, rfl⟩
    · rintro ⟨rfl, rfl⟩
      rfl
  · exact ⟨stem e, fileName_eq e, fun c hc => mem_stem hc⟩
  · refine ⟨slash_not_mem_fileName e, ?_⟩
    simp only [List.mem_cons, List.not_mem_nil, or_false, not_or]
    exact ⟨fileName_ne (by decide) e, fileName_ne (by decide) e, fileName_ne (by decide) e⟩

end Parley.Save
