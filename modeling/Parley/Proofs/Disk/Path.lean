/-
  Parley.Proofs.Disk.Path

  Paths and their parts. Splitting a text at its slashes is splitting the list of its characters
  (`splitOn_slash`). So a name without a slash that is joined to a directory is the last part of
  the path, below the parts of the directory (`parts_join`).
-/
import Mathlib.Data.String.Basic
import Parley.Disk.Basic

namespace Parley.Path

/-! ### Splitting at slashes -/

section

open String

/-- What is left to split: `held` are the characters since the last slash, `done` those up to
    it. -/
theorem splitOnAux_slash (done held rest : List Char) (names : List String) :
    splitOnAux (ofList (done ++ held ++ rest)) "/" ⟨utf8Len done⟩
        ⟨utf8Len done + utf8Len held⟩ 0 names =
      names.reverse ++ (List.splitOnPPrepend (· == '/') rest held.reverse).map ofList := by
  induction rest generalizing done held names with
  | nil =>
      have hend : Pos.Raw.atEnd (ofList (done ++ held ++ [])) ⟨utf8Len done + utf8Len held⟩ =
          true := by
        rw [atEnd_iff, rawEndPos_ofList, List.append_nil, utf8Len_append]
        exact Nat.le_refl _
      rw [splitOnAux, if_pos hend, extract_of_valid]
      simp
  | cons c rest ih =>
      have hplace : utf8Len done + utf8Len held = utf8Len (done ++ held) :=
        (utf8Len_append ..).symm
      have hend : ¬ Pos.Raw.atEnd (ofList (done ++ held ++ c :: rest))
          ⟨utf8Len done + utf8Len held⟩ = true := by
        have hc := c.utf8Size_pos
        rw [atEnd_iff, rawEndPos_ofList, Pos.Raw.mk_le_mk, utf8Len_append, utf8Len_append,
          utf8Len_cons]
        omega
      have hget : Pos.Raw.get (ofList (done ++ held ++ c :: rest))
          ⟨utf8Len done + utf8Len held⟩ = c := by
        rw [hplace, get_of_valid]
        rfl
      have hnext : Pos.Raw.next (ofList (done ++ held ++ c :: rest))
          ⟨utf8Len done + utf8Len held⟩ = ⟨utf8Len done + utf8Len held + c.utf8Size⟩ := by
        rw [hplace, next_of_valid]
      -- The separator is one character, so a match of it is complete at once.
      have hslash : Pos.Raw.get "/" 0 = '/' := rfl
      have hunoffset (p : Pos.Raw) : p.unoffsetBy 0 = p := rfl
      rw [splitOnAux, if_neg hend, hget, hslash, hunoffset, hnext,
        List.splitOnPPrepend_cons_eq_if]
      by_cases hc : (c == '/') = true
      · obtain rfl : c = '/' := by simpa using hc
        have hlast : Pos.Raw.atEnd "/" (Pos.Raw.next "/" 0) = true := rfl
        have hbefore : Pos.Raw.unoffsetBy ⟨utf8Len done + utf8Len held + ('/').utf8Size⟩
            (Pos.Raw.next "/" 0) = ⟨utf8Len done + utf8Len held⟩ := rfl
        have hstep := ih (done ++ held ++ ['/']) [] (ofList held :: names)
        rw [if_pos hc, if_pos hc]
        simp only [hlast, if_true, hbefore, extract_of_valid]
        simpa [Nat.add_assoc] using hstep
      · have hstep := ih done (held ++ [c]) names
        rw [if_neg hc, if_neg hc]
        simpa [Nat.add_assoc] using hstep

end

theorem splitOn_slash (s : String) :
    s.splitOn "/" = (s.toList.splitOn '/').map String.ofList := by
  have hsplit := splitOnAux_slash [] [] s.toList []
  rw [List.append_nil, List.nil_append, String.ofList_toList] at hsplit
  rw [List.splitOn_eq_splitOnP]
  exact hsplit

/-! ### Names in directories -/

/-- The names between the slashes of a path. -/
def names (path : String) : List String := (path.splitOn "/").filter (· ≠ "")

variable {name : String}

theorem splitOn_slash_append (dir : List Char) (hslash : '/' ∉ name.toList) :
    (String.ofList (dir ++ '/' :: name.toList)).splitOn "/" =
      (dir.splitOn '/').map String.ofList ++ [name] := by
  rw [splitOn_slash, String.toList_ofList, List.splitOn_append_cons_self,
    List.splitOn_eq_singleton hslash, List.map_append, List.map_singleton, String.ofList_toList]

/-- A name without a slash is the last part of a path that it is joined to. -/
theorem splitOn_join (dir : String) (hslash : '/' ∉ name.toList) :
    ∃ above, (join dir name).splitOn "/" = above ++ [name] ∧
      above.filter (· ≠ "") = names dir := by
  unfold join
  split
  · rename_i hempty
    obtain rfl : dir = "" := by simpa using hempty
    refine ⟨[], ?_, by simp [names, splitOn_slash]⟩
    rw [splitOn_slash, List.splitOn_eq_singleton hslash]
    simp
  · split
    · rename_i hlast
      -- The slash is there already, and nothing stands behind it.
      obtain ⟨front, hfront⟩ : ∃ front, dir.toList = front ++ ['/'] :=
        List.getLast?_eq_some_iff.1 hlast
      refine ⟨(front.splitOn '/').map String.ofList, ?_, ?_⟩
      · rw [← splitOn_slash_append front hslash]
        congr 1
        rw [← String.toList_inj]
        simp [hfront]
      · rw [names, splitOn_slash, hfront, List.splitOn_append_cons_self, List.splitOn_nil,
          List.map_append, List.filter_append]
        simp
    · refine ⟨dir.splitOn "/", ?_, rfl⟩
      rw [splitOn_slash dir, ← splitOn_slash_append dir.toList hslash]
      congr 1
      rw [← String.toList_inj]
      simp

/-- A path with a name below a directory has the names of the directory, and then this one. -/
theorem parts_join (dir : String) (hslash : '/' ∉ name.toList) (hne : name ≠ "") :
    parts (join dir name) = names dir ++ [name] := by
  obtain ⟨above, hsplit, habove⟩ := splitOn_join dir hslash
  have hkept : (above ++ [name]).filter (· ≠ "") = names dir ++ [name] := by
    rw [List.filter_append, habove]
    simp [hne]
  simp only [parts, hsplit, hkept, List.getLast?_concat]
  rw [if_neg (by simp [hne])]

theorem fileName?_join (dir : String) (hslash : '/' ∉ name.toList) (hne : name ≠ "")
    (hdot : name ≠ ".") (hdots : name ≠ "..") : fileName? (join dir name) = some name := by
  obtain ⟨above, hsplit, -⟩ := splitOn_join dir hslash
  have hkept : [name].filter (fun n => decide (n ≠ "" ∧ n ≠ ".")) = [name] := by simp [hne, hdot]
  rw [fileName?, hsplit, List.filter_append, hkept, List.getLast?_concat]
  split
  · rename_i heq
    exact absurd (Option.some.inj heq) hdots
  · rfl

end Parley.Path
