/-
  Parley.Proofs.Catalogue.Loading

  What a directory makes of a catalogue. Every script file either adds a script or is reported
  (`Entry.Adds`, `Entry.Fails`), and a load goes through the files in the order of their names,
  so the scripts that were added and the failures are two filtered copies of one ascending list
  (`loadFiles_eq`). The order in which the directory was listed is lost in the sort
  (`scriptFiles_perm`), and of the scripts with one identifier the last one added is kept
  (`get?_ofAdded`).

  Identifiers that are made up depend on the number of the file. So what is said of a whole
  directory is said of those in which every script carries its own (`Settled`). What is wrong
  with a text that is no script is for the reader of texts to say (`explain`); all that is said
  here holds whatever it says.
-/
import Mathlib.Data.List.Dedup
import Parley.Catalogue
import Parley.Proofs.Table

namespace Parley

/-! ### Ascending lists -/

/-- Sorted by a name, nothing stands behind what its name comes before. -/
theorem pairwise_mergeSort_by {α : Type} (name : α → String) (l : List α) :
    (l.mergeSort fun a b => !(name b < name a)).Pairwise fun a b => ¬name b < name a := by
  have hsorted := @List.pairwise_mergeSort α (fun a b => !(name b < name a))
    (fun a b c hab hbc => ?_) (fun a b => ?_) l
  · exact hsorted.imp fun h => by simpa using h
  · simp only [Bool.not_eq_true', decide_eq_false_iff_not] at hab hbc ⊢
    exact String.not_lt.2 (String.le_trans (String.not_lt.1 hab) (String.not_lt.1 hbc))
  · simp only [Bool.or_eq_true, Bool.not_eq_true', decide_eq_false_iff_not, String.not_lt]
    exact String.le_total _ _

/-- The last element of an ascending list with a property has none with it above. -/
theorem getLast?_filter_eq_some_iff {α : Type} {lt : α → α → Prop} {l : List α}
    (hasymm : ∀ a b, lt a b → ¬lt b a) (hl : l.Pairwise lt) (p : α → Bool) {a : α} :
    (l.filter p).getLast? = some a ↔
      a ∈ l ∧ p a = true ∧ ∀ b ∈ l, lt a b → p b = false := by
  have hfilter := hl.filter p
  constructor
  · intro hlast
    obtain ⟨below, hbelow⟩ := List.getLast?_eq_some_iff.1 hlast
    rw [hbelow] at hfilter
    -- Whatever else has the property stands in front of the last element, and so below it.
    obtain ⟨hmem, hp⟩ := List.mem_filter.1 (List.mem_of_getLast? hlast)
    refine ⟨hmem, hp, fun b hb hab => ?_⟩
    by_contra hpb
    have hb : b ∈ below ++ [a] :=
      hbelow ▸ List.mem_filter.2 ⟨hb, Bool.eq_true_of_not_eq_false hpb⟩
    rcases List.mem_append.1 hb with hb | hb
    · exact hasymm a b hab ((List.pairwise_append.1 hfilter).2.2 b hb a (List.mem_singleton_self a))
    · obtain rfl := List.mem_singleton.1 hb
      exact hasymm _ _ hab hab
  · rintro ⟨hmem, hp, habove⟩
    have ha : a ∈ l.filter p := List.mem_filter.2 ⟨hmem, hp⟩
    cases hlast : (l.filter p).getLast? with
    | none =>
        rw [List.getLast?_eq_none_iff.1 hlast] at ha
        cases ha
    | some z =>
        obtain ⟨below, hbelow⟩ := List.getLast?_eq_some_iff.1 hlast
        obtain ⟨hz, hpz⟩ := List.mem_filter.1 (List.mem_of_getLast? hlast)
        rw [hbelow] at ha hfilter
        rcases List.mem_append.1 ha with ha | ha
        · have haz := (List.pairwise_append.1 hfilter).2.2 a ha z (List.mem_singleton_self z)
          rw [habove z hz haz] at hpz
          cases hpz
        · rw [List.mem_singleton.1 ha]

/-! ### Identifiers -/

namespace Script

theorem get?_orDefault_of_ne (t : Table String) {name other : String} (h : other ≠ name)
    (value : String) : (orDefault t name value).get? other = t.get? other := by
  rw [orDefault]
  split
  · rfl
  · exact t.get?_insert_of_ne h value

theorem isAnonymous_eq_false {s : Script} (h : s.id ≠ "") : s.isAnonymous = false := by
  rw [isAnonymous, String.isEmpty_eq_false_iff]
  exact h

/-- A script that has an identifier keeps it. -/
theorem id_complete {s : Script} (h : s.id ≠ "") (file fresh : String) :
    (s.complete file fresh).id = s.id := by
  rw [id, complete, isAnonymous_eq_false h]
  simp only [Bool.false_eq_true, if_false]
  rw [get?_orDefault_of_ne _ (by decide), get?_orDefault_of_ne _ (by decide), id]

/-- No identifier is made up for a script that has one. -/
theorem complete_of_id {s : Script} (h : s.id ≠ "") (file fresh fresh' : String) :
    s.complete file fresh = s.complete file fresh' := by
  simp only [complete, isAnonymous_eq_false h, Bool.false_eq_true, if_false]

theorem finish_of_id {s : Script} (h : s.id ≠ "") (file fresh : String) :
    s.finish file fresh = .ok (s.complete file fresh) := by
  have hid : (s.complete file fresh).id ≠ "" := by rwa [id_complete h]
  simp only [finish, isAnonymous_eq_false hid, Bool.false_eq_true, if_false]

end Script

namespace Catalogue

/-! ### Entries -/

/-- The name of a script file: `.json` follows something. -/
def IsJson (name : String) : Prop := ∃ stem : String, stem ≠ "" ∧ name = stem ++ ".json"

theorem isScriptFile_iff {name : String} : isScriptFile name = true ↔ IsJson name := by
  rw [isScriptFile, Bool.and_eq_true, List.isSuffixOf_iff_suffix, decide_eq_true_iff]
  constructor
  · rintro ⟨⟨stem, hstem⟩, hlength⟩
    refine ⟨String.ofList stem, ?_, ?_⟩
    · intro hempty
      rw [← hstem, List.length_append, String.ofList_eq_empty_iff.1 hempty] at hlength
      exact absurd hlength (by decide)
    · rw [← String.toList_inj, String.toList_append, String.toList_ofList, hstem]
  · rintro ⟨stem, hstem, rfl⟩
    rw [String.toList_append]
    refine ⟨List.suffix_append _ _, ?_⟩
    have hpos : 0 < stem.toList.length :=
      List.length_pos_iff.2 (mt String.toList_eq_nil_iff.1 hstem)
    rw [List.length_append]
    exact Nat.lt_add_of_pos_left (n := 5) hpos

namespace Entry

/-- The script that the text of a file decodes to. -/
def decoded? (e : Entry) : Option Script :=
  match e.content with
  | .error _ => none
  | .ok text => Script.decode? text

/-- The script that a file adds: what is written there with its name and metadata filled in.
No identifier is filled in. -/
def Adds (e : Entry) (s : Script) : Prop :=
  IsJson e.file ∧ ∃ written, e.decoded? = some written ∧ s = written.complete e.file ""

/-- What is reported of a file that adds nothing. -/
inductive Fails (explain : String → String) (dir : String) : Entry → LoadFailure → Prop
  | unread {file : String} {fault : Fault} (hjson : IsJson file) :
    Fails explain dir ⟨file, .error fault⟩
      ⟨file, "Failed to read " ++ Path.join dir file ++ ": " ++ fault.message⟩
  | undecoded {file text : String} (hjson : IsJson file)
    (hnone : decoded? ⟨file, .ok text⟩ = none) :
    Fails explain dir ⟨file, .ok text⟩
      ⟨file, "invalid script JSON in " ++ file ++ ": " ++ explain text⟩

/-- A script that is read off the file carries its identifier. -/
def Identified (e : Entry) : Prop := ∀ s, e.decoded? = some s → s.id ≠ ""

variable {e : Entry} {dir : String} {explain : String → String}

/-- Of a text that gives the identifier, the script is completed without another. -/
theorem script?_of_text {file text : String} (h : Identified ⟨file, .ok text⟩) (fresh : String) :
    script? explain ⟨file, .ok text⟩ dir fresh =
      match decoded? ⟨file, .ok text⟩ with
      | none => .error ("invalid script JSON in " ++ file ++ ": " ++ explain text)
      | some s => .ok (s.complete file "") := by
  simp only [Identified, decoded?] at h ⊢
  simp only [script?, Script.ofText]
  cases hdecoded : Script.decode? text with
  | none => rfl
  | some s =>
      have hid := h s hdecoded
      simp only [Script.finish_of_id hid, Script.complete_of_id hid file fresh ""]
      rfl

/-- The identifier at hand for a file is not used. -/
theorem script?_eq (h : e.Identified) (fresh : String) :
    e.script? explain dir fresh = e.script? explain dir "" := by
  obtain ⟨file, content⟩ := e
  cases content with
  | error fault => rfl
  | ok text => rw [script?_of_text h, script?_of_text h]

theorem script?_eq_ok_iff (h : e.Identified) (hjson : IsJson e.file) {s : Script} :
    e.script? explain dir "" = .ok s ↔ e.Adds s := by
  obtain ⟨file, content⟩ := e
  cases content with
  | error fault => simp [script?, Adds, decoded?]
  | ok text =>
      simp only [script?_of_text h, Adds, hjson, true_and]
      cases decoded? ⟨file, .ok text⟩ with
      | none => simp
      | some written => simp [eq_comm]

theorem script?_eq_error_iff (h : e.Identified) (hjson : IsJson e.file) {reason : String} :
    e.script? explain dir "" = .error reason ↔ Fails explain dir e ⟨e.file, reason⟩ := by
  obtain ⟨file, content⟩ := e
  cases content with
  | error fault =>
      constructor
      · intro h
        obtain rfl := Except.error.inj h
        exact .unread hjson
      · intro h
        cases h
        rfl
  | ok text =>
      simp only [script?_of_text h]
      cases hdecoded : decoded? ⟨file, .ok text⟩ with
      | none =>
          constructor
          · intro h
            obtain rfl := Except.error.inj h
            exact .undecoded hjson hdecoded
          · intro h
            cases h
            rfl
      | some written =>
          constructor
          · intro h
            cases h
          · intro h
            cases h with
            | undecoded _ hnone =>
                rw [hdecoded] at hnone
                cases hnone

theorem Fails.file_eq {f : LoadFailure} (h : Fails explain dir e f) : f.file = e.file := by
  cases h <;> rfl

theorem Fails.isJson {f : LoadFailure} (h : Fails explain dir e f) : IsJson e.file := by
  cases h <;> assumption

end Entry

/-- The entries of a directory: no name occurs twice, and every script carries its identifier. -/
structure Settled (entries : List Entry) : Prop where
  distinct : (entries.map (·.file)).Nodup
  identified : ∀ e ∈ entries, IsJson e.file → e.Identified

/-! ### The files in order -/

variable {entries listed : List Entry}

theorem scriptFiles_perm_filter (entries : List Entry) :
    (scriptFiles entries).Perm (entries.filter fun e => isScriptFile e.file) :=
  List.mergeSort_perm ..

theorem mem_scriptFiles {e : Entry} : e ∈ scriptFiles entries ↔ e ∈ entries ∧ IsJson e.file := by
  rw [(scriptFiles_perm_filter entries).mem_iff, List.mem_filter, isScriptFile_iff]

/-- The files are taken in ascending order. -/
theorem scriptFiles_ascending (hdistinct : (entries.map (·.file)).Nodup) :
    (scriptFiles entries).Pairwise fun a b => a.file < b.file := by
  have hnodup : ((scriptFiles entries).map (·.file)).Nodup := by
    refine ((scriptFiles_perm_filter entries).map (·.file)).nodup_iff.2 ?_
    exact hdistinct.sublist ((List.filter_sublist (l := entries)).map (·.file))
  have hsorted := pairwise_mergeSort_by Entry.file (entries.filter fun e => isScriptFile e.file)
  refine (hsorted.and (List.pairwise_map.1 hnodup)).imp ?_
  rintro a b ⟨hle, hne⟩
  exact Std.lt_of_le_of_ne (String.not_lt.1 hle) hne

/-- The order in which a directory is listed does not matter. -/
theorem scriptFiles_perm (hdistinct : (entries.map (·.file)).Nodup) (hperm : listed.Perm entries) :
    scriptFiles listed = scriptFiles entries := by
  have hdistinct' := (hperm.map (·.file)).nodup_iff.2 hdistinct
  have hfiles : (scriptFiles listed).Perm (scriptFiles entries) :=
    (scriptFiles_perm_filter listed).trans
      ((hperm.filter _).trans (scriptFiles_perm_filter entries).symm)
  refine List.Perm.eq_of_pairwise ?_ (scriptFiles_ascending hdistinct')
    (scriptFiles_ascending hdistinct) hfiles
  intro a b _ _ hab hba
  exact absurd hba (String.lt_asymm hab)

/-! ### A load -/

/-- The files that add a script, with their scripts. -/
def added (explain : String → String) (dir : String) (files : List Entry) : List (Entry × Script) :=
  files.filterMap fun e => (e.script? explain dir "").toOption.map fun s => (e, s)

/-- The failures among files. -/
def failed (explain : String → String) (dir : String) (files : List Entry) : List LoadFailure :=
  files.filterMap fun e =>
    match e.script? explain dir "" with
    | .ok _ => none
    | .error reason => some ⟨e.file, reason⟩

/-- Enters scripts one after another. -/
def ofAdded (c : Catalogue) (l : List (Entry × Script)) : Catalogue :=
  l.foldl (fun c a => c.insert a.2) c

/-- Whether or not files fail, the scripts of the others are entered in order. -/
theorem loadFiles_eq (explain : String → String) (dir : String) (fresh : Nat → String) (n : Nat)
    {files : List Entry} (hidentified : ∀ e ∈ files, e.Identified) (c : Catalogue) :
    loadFiles explain dir fresh n files c =
      (ofAdded c (added explain dir files), failed explain dir files) := by
  -- Along the files. The number of a file only goes into an identifier that is made up.
  induction files generalizing n c with
  | nil => rfl
  | cons e files ih =>
      obtain ⟨he, hfiles⟩ := List.forall_mem_cons.1 hidentified
      rw [loadFiles, Entry.script?_eq he, added, failed, List.filterMap_cons, List.filterMap_cons]
      cases e.script? explain dir "" with
      | ok s => exact ih (n + 1) hfiles (c.insert s)
      | error reason =>
          simp only [ih (n + 1) hfiles c]
          rfl

variable {explain : String → String} {dir : String} {files : List Entry}

theorem mem_added {e : Entry} {s : Script} (hidentified : ∀ e ∈ files, e.Identified)
    (hjson : ∀ e ∈ files, IsJson e.file) :
    (e, s) ∈ added explain dir files ↔ e ∈ files ∧ e.Adds s := by
  rw [added, List.mem_filterMap]
  constructor
  · rintro ⟨e', he', hadded⟩
    obtain ⟨s', hs', hpair⟩ := Option.map_eq_some_iff.1 hadded
    obtain ⟨rfl, rfl⟩ := Prod.mk.inj hpair
    cases hscript : e'.script? explain dir "" with
    | error reason =>
        rw [hscript] at hs'
        cases hs'
    | ok s =>
        rw [hscript] at hs'
        obtain rfl := Option.some.inj hs'
        exact ⟨he', (Entry.script?_eq_ok_iff (hidentified e' he') (hjson e' he')).1 hscript⟩
  · rintro ⟨he, hadds⟩
    refine ⟨e, he, ?_⟩
    rw [(Entry.script?_eq_ok_iff (hidentified e he) (hjson e he)).2 hadds]
    rfl

theorem mem_failed {f : LoadFailure} (hidentified : ∀ e ∈ files, e.Identified)
    (hjson : ∀ e ∈ files, IsJson e.file) :
    f ∈ failed explain dir files ↔ ∃ e ∈ files, e.Fails explain dir f := by
  rw [failed, List.mem_filterMap]
  constructor
  · rintro ⟨e, he, hfailed⟩
    split at hfailed
    · cases hfailed
    · rename_i reason hscript
      obtain rfl := Option.some.inj hfailed
      exact ⟨e, he, (Entry.script?_eq_error_iff (hidentified e he) (hjson e he)).1 hscript⟩
  · rintro ⟨e, he, hfails⟩
    obtain ⟨file, reason⟩ := f
    obtain rfl : file = e.file := hfails.file_eq
    refine ⟨e, he, ?_⟩
    rw [(Entry.script?_eq_error_iff (hidentified e he) (hjson e he)).2 hfails]

theorem added_ascending (hfiles : files.Pairwise fun a b => a.file < b.file) :
    (added explain dir files).Pairwise fun a b => a.1.file < b.1.file := by
  refine hfiles.filterMap _ ?_
  rintro a b hab _ ha _ hb
  obtain ⟨s, -, rfl⟩ := Option.map_eq_some_iff.1 ha
  obtain ⟨s', -, rfl⟩ := Option.map_eq_some_iff.1 hb
  exact hab

theorem failed_ascending (hfiles : files.Pairwise fun a b => a.file < b.file) :
    (failed explain dir files).Pairwise fun f g => f.file < g.file := by
  refine hfiles.filterMap _ ?_
  intro a b hab f ha g hb
  split at ha
  · cases ha
  · split at hb
    · cases hb
    · obtain rfl := Option.some.inj ha
      obtain rfl := Option.some.inj hb
      exact hab

/-- Every file adds a script or fails, and not both. -/
theorem shared_out (explain : String → String) (dir : String) (files : List Entry) :
    ((added explain dir files).map (·.1.file) ++ (failed explain dir files).map (·.file)).Perm
      (files.map (·.file)) := by
  induction files with
  | nil => rfl
  | cons e files ih =>
      rw [added, failed, List.filterMap_cons, List.filterMap_cons, List.map_cons]
      cases e.script? explain dir "" with
      | ok s => exact ih.cons e.file
      | error reason => exact List.perm_middle.trans (ih.cons e.file)

/-! ### What a catalogue holds -/

variable {l : List (Entry × Script)}

theorem scripts_ofAdded (c : Catalogue) (l : List (Entry × Script)) :
    (ofAdded c l).scripts =
      (l.map fun a => (a.2.id, a.2)).foldl (fun t e => t.insert e.1 e.2) c.scripts := by
  induction l generalizing c with
  | nil => rfl
  | cons a l ih => exact ih (c.insert a.2)

/-- The script kept under an identifier is that of the last file that gives it. -/
theorem get?_ofAdded (hl : l.Pairwise fun a b => a.1.file < b.1.file) {id : String} {s : Script} :
    (ofAdded {} l).get? id = some s ↔
      ∃ e, (e, s) ∈ l ∧ s.id = id ∧ ∀ b ∈ l, e.file < b.1.file → b.2.id ≠ id := by
  have hlast (a : Entry × Script) := getLast?_filter_eq_some_iff (a := a)
    (fun _ _ => String.lt_asymm) hl (fun b => b.2.id == id)
  rw [get?, scripts_ofAdded, Table.get?_foldl_insert, Table.get?_empty, Option.or_none,
    List.filter_map, List.getLast?_map, Option.map_map, Option.map_eq_some_iff]
  constructor
  · rintro ⟨⟨e, s⟩, ha, rfl⟩
    obtain ⟨hmem, hid, habove⟩ := (hlast (e, s)).1 ha
    exact ⟨e, hmem, beq_iff_eq.1 hid, fun b hb hlt => beq_eq_false_iff_ne.1 (habove b hb hlt)⟩
  · rintro ⟨e, hmem, hid, habove⟩
    refine ⟨(e, s), (hlast (e, s)).2 ⟨hmem, beq_iff_eq.2 hid, ?_⟩, rfl⟩
    exact fun b hb hlt => beq_eq_false_iff_ne.2 (habove b hb hlt)

/-- Every script is kept under its own identifier. -/
theorem id_of_mem_entries {e : String × Script} (h : e ∈ (ofAdded {} l).scripts.entries) :
    e.2.id = e.1 := by
  have hget := (Table.get?_eq_some_iff _).2 h
  rw [scripts_ofAdded, Table.get?_foldl_insert, Table.get?_empty, Option.or_none,
    List.filter_map, List.getLast?_map, Option.map_map, Option.map_eq_some_iff] at hget
  obtain ⟨a, ha, hs⟩ := hget
  rw [← show a.2 = e.2 from hs]
  exact beq_iff_eq.1 (List.mem_filter.1 (List.mem_of_getLast? ha)).2

theorem mem_names_ofAdded {id : String} :
    id ∈ (ofAdded {} l).scripts.names ↔ id ∈ l.map (·.2.id) := by
  rw [Table.mem_names_iff, scripts_ofAdded, Table.get?_foldl_insert, Table.get?_empty,
    Option.or_none, List.filter_map, List.getLast?_map, Option.isSome_map, Option.isSome_map,
    List.getLast?_isSome, ne_eq, List.filter_eq_nil_iff, List.mem_map]
  simp

/-- There is one script for each identifier. -/
theorem size_ofAdded (l : List (Entry × Script)) :
    (ofAdded {} l).size = (l.map (·.2.id)).dedup.length := by
  have hnodup : (ofAdded {} l).scripts.names.Nodup := Table.nodup_names _
  have hperm : (ofAdded {} l).scripts.names.Perm (l.map (·.2.id)).dedup := by
    rw [List.perm_ext_iff_of_nodup hnodup (List.nodup_dedup _)]
    intro id
    rw [mem_names_ofAdded, List.mem_dedup]
  rw [← hperm.length_eq, Table.names, List.length_map]
  rfl

/-- A search finds the kept scripts that have the trigger. -/
theorem mem_withTrigger {key value : String} {s : Script} :
    s ∈ (ofAdded {} l).withTrigger key value ↔
      (ofAdded {} l).get? s.id = some s ∧ s.trigger? key = some value := by
  rw [withTrigger, (List.mergeSort_perm ..).mem_iff, List.mem_filter, beq_iff_eq, get?,
    Table.get?_eq_some_iff, List.mem_map]
  refine and_congr_left fun _ => ⟨?_, fun h => ⟨_, h, rfl⟩⟩
  rintro ⟨e, he, rfl⟩
  rw [id_of_mem_entries he]
  exact he

theorem nodup_ids_withTrigger (l : List (Entry × Script)) (key value : String) :
    (((ofAdded {} l).withTrigger key value).map Script.id).Nodup := by
  have hids : ((ofAdded {} l).scripts.entries.map (·.2)).map Script.id =
      (ofAdded {} l).scripts.names := by
    rw [List.map_map, Table.names]
    exact List.map_congr_left fun e he => id_of_mem_entries he
  -- A search leaves out scripts and changes their order, and no more.
  rw [withTrigger, ((List.mergeSort_perm _ _).map Script.id).nodup_iff]
  refine List.Nodup.sublist (List.filter_sublist.map Script.id) ?_
  rw [hids]
  exact Table.nodup_names _

theorem withTrigger_sorted (c : Catalogue) (key value : String) :
    (c.withTrigger key value).Pairwise fun s t => ¬t.name < s.name :=
  pairwise_mergeSort_by Script.name _

/-! ### A directory -/

/-- A disk on which the script files of a directory read as its entries say. -/
def Reads {σ : Type} (disk : Disk (StateM σ)) (t : σ) (dir : String) (entries : List Entry) :
    Prop :=
  ∀ e ∈ entries, IsJson e.file → (disk.read (Path.join dir e.file)).run t = pure (e.content, t)

theorem readEntries_run {σ : Type} {disk : Disk (StateM σ)} {t : σ}
    (hreads : Reads disk t dir entries) :
    (readEntries disk dir (entries.map (·.file))).run t =
      pure (entries.filter fun e => isScriptFile e.file, t) := by
  induction entries with
  | nil => rfl
  | cons e entries ih =>
      obtain ⟨he, hentries⟩ := List.forall_mem_cons.1 hreads
      rw [List.map_cons, readEntries, List.filter_cons]
      cases hjson : isScriptFile e.file with
      | false => exact ih hentries
      | true =>
          have hread := he (isScriptFile_iff.1 hjson)
          simp only [if_true, StateT.run_bind, hread, pure_bind, ih hentries, StateT.run_pure]

/-- What a load makes of a directory: which scripts were added, in order, the catalogue they
make up, and the files that failed. -/
structure Accounts (explain : String → String) (dir : String) (entries : List Entry)
    (added : List (Entry × Script)) (c : Catalogue) (failures : List LoadFailure) : Prop where
  /-- Every script file adds a script or fails, only once, and no other entry does anything. -/
  shared : (added.map (·.1.file) ++ failures.map (·.file)).Perm
    ((entries.map (·.file)).filter isScriptFile)
  added_iff : ∀ e s, (e, s) ∈ added ↔ e ∈ entries ∧ e.Adds s
  failed_iff : ∀ f, f ∈ failures ↔ ∃ e ∈ entries, e.Fails explain dir f
  failures_ascending : failures.Pairwise fun f g => f.file < g.file
  /-- Scripts are kept under the identifiers that their texts give. -/
  identified : ∀ a ∈ added, a.1.decoded?.map Script.id = some a.2.id
  get?_iff : ∀ id s, c.get? id = some s ↔ ∃ e, (e, s) ∈ added ∧ s.id = id ∧
    ∀ b ∈ added, e.file < b.1.file → b.2.id ≠ id
  size_eq : c.size = (added.map (·.2.id)).dedup.length
  mem_withTrigger : ∀ key value s, s ∈ c.withTrigger key value ↔
    c.get? s.id = some s ∧ s.trigger? key = some value
  nodup_withTrigger : ∀ key value, ((c.withTrigger key value).map Script.id).Nodup
  withTrigger_sorted : ∀ key value,
    (c.withTrigger key value).Pairwise fun s t => ¬t.name < s.name

theorem accounts_of_scriptFiles (explain : String → String) (dir : String) (h : Settled entries) :
    Accounts explain dir entries (added explain dir (scriptFiles entries))
      (ofAdded {} (added explain dir (scriptFiles entries)))
      (failed explain dir (scriptFiles entries)) := by
  have hjson : ∀ e ∈ scriptFiles entries, IsJson e.file := fun e he => (mem_scriptFiles.1 he).2
  have hidentified : ∀ e ∈ scriptFiles entries, e.Identified := fun e he =>
    h.identified e (mem_scriptFiles.1 he).1 (hjson e he)
  have hascending := scriptFiles_ascending h.distinct
  have hadded : ∀ e s,
      (e, s) ∈ added explain dir (scriptFiles entries) ↔ e ∈ entries ∧ e.Adds s := by
    intro e s
    rw [mem_added hidentified hjson, mem_scriptFiles, and_assoc]
    exact and_congr_right fun _ => and_iff_right_of_imp And.left
  exact {
    shared := by
      refine (shared_out explain dir _).trans ?_
      rw [List.filter_map]
      exact (scriptFiles_perm_filter entries).map (·.file)
    added_iff := hadded
    failed_iff := by
      intro f
      simp only [mem_failed hidentified hjson, mem_scriptFiles, and_assoc]
      refine exists_congr fun e => and_congr_right fun _ => ?_
      exact and_iff_right_of_imp Entry.Fails.isJson
    failures_ascending := failed_ascending hascending
    identified := by
      rintro ⟨e, s⟩ ha
      obtain ⟨he, hisJson, written, hwritten, rfl⟩ := (hadded e s).1 ha
      have hid := h.identified e he hisJson written hwritten
      rw [hwritten, Option.map_some, Script.id_complete hid]
    get?_iff := fun id s => get?_ofAdded (added_ascending hascending)
    size_eq := size_ofAdded _
    mem_withTrigger := fun key value s => Catalogue.mem_withTrigger
    nodup_withTrigger := nodup_ids_withTrigger _
    withTrigger_sorted := Catalogue.withTrigger_sorted _ }

theorem ofEntries_eq (explain : String → String) (dir : String) (fresh : Nat → String)
    (h : Settled entries) (hperm : listed.Perm entries) :
    ofEntries explain dir fresh (listed.filter fun e => isScriptFile e.file) =
      (ofAdded {} (added explain dir (scriptFiles entries)),
        failed explain dir (scriptFiles entries)) := by
  have hfiltered :
      scriptFiles (listed.filter fun e => isScriptFile e.file) = scriptFiles entries := by
    rw [← scriptFiles_perm h.distinct hperm, scriptFiles, scriptFiles, List.filter_filter]
    simp only [Bool.and_self]
  rw [ofEntries, hfiltered]
  refine loadFiles_eq explain dir fresh 0 (fun e he => ?_) {}
  obtain ⟨he, hjson⟩ := mem_scriptFiles.1 he
  exact h.identified e he hjson

/-- A load that has read the files is that of their entries. -/
theorem loadDir_run {σ : Type} {disk : Disk (StateM σ)} {t : σ} (hsettled : Settled entries)
    (hperm : listed.Perm entries) (hreads : Reads disk t dir entries) (fresh : Nat → String) :
    (loadDir explain disk dir fresh (.ok (listed.map (·.file)))).run t =
      pure (.ok (ofAdded {} (added explain dir (scriptFiles entries)),
        failed explain dir (scriptFiles entries)), t) := by
  have hlisted : Reads disk t dir listed := fun e he => hreads e (hperm.mem_iff.1 he)
  simp only [loadDir, StateT.run_bind, readEntries_run hlisted, pure_bind, StateT.run_pure,
    ofEntries_eq explain dir fresh hsettled hperm]

/-- A load loses no file of a directory and does not depend on the order in which its entries are
listed, nor on the identifiers at hand: every script file adds its script or is reported with the
reason, the catalogue holds of each identifier the script of the last file that gives it, and a
search for a trigger finds just the scripts kept that have it, by name. -/
theorem loadDir_accounts {σ : Type} (explain : String → String) (disk : Disk (StateM σ)) (t : σ)
    (dir : String) (entries : List Entry) (hsettled : Settled entries)
    (hreads : Reads disk t dir entries) :
    ∃ added c failures,
      (∀ listed : List Entry, listed.Perm entries → ∀ fresh : Nat → String,
        (loadDir explain disk dir fresh (.ok (listed.map (·.file)))).run t =
          pure (.ok (c, failures), t)) ∧
      Accounts explain dir entries added c failures :=
  ⟨_, _, _, fun _ hperm fresh => loadDir_run hsettled hperm hreads fresh,
    accounts_of_scriptFiles explain dir hsettled⟩

deriving instance DecidableEq for Entry

instance (e : Entry) : Decidable e.Identified :=
  decidable_of_iff (e.decoded?.all (fun s => s.id != "") = true) (by
    rw [Option.all_eq_true, Entry.Identified]
    exact forall₂_congr fun s _ => bne_iff_ne)

/-- What a path gives on a disk with one directory. -/
def contentAt (dir : String) (entries : List Entry) (path : String) : Except Fault String :=
  match entries.find? fun e => Path.join dir e.file == path with
  | some e => e.content
  | none => .error .notFound

/-- A disk with one directory, for reading only. -/
def shelf (dir : String) (entries : List Entry) : Disk (StateM Unit) where
  read path := pure (contentAt dir entries path)
  write _ _ := pure (.error (.other "Read-only file system (os error 30)"))
  makeDirs _ := pure (.error (.other "Read-only file system (os error 30)"))

/-- The text of a script with metadata and triggers. -/
def textOf (metadata triggers : List (String × Json)) : String :=
  (Json.obj [("metadata", .obj metadata), ("triggers", .obj triggers)]).pretty

/-- Two scripts of one identifier and one of another, a text that is no script, a directory with
the name of a script, and two names that are not read. -/
def mixed : List Entry :=
  [⟨"b.json", .ok (textOf [("uuid", .str "u"), ("version", .str "2")] [])⟩,
    ⟨"notes.txt", .ok (textOf [] [])⟩,
    ⟨"e.json", .error .isDirectory⟩,
    ⟨"a.json", .ok (textOf [("uuid", .str "u")] [("enter", .str "inn")])⟩,
    ⟨"c.json", .ok "no script"⟩,
    ⟨".json", .ok (textOf [] [])⟩,
    ⟨"d.json", .ok (textOf [("uuid", .str "v")] [("enter", .str "inn")])⟩]

/-- The last of two scripts of one identifier is kept, and the trigger of the other is gone. -/
theorem loadDir_accounts_mixed :
    let explain : String → String := fun text => Text.quoted text ++ " is not JSON"
    Settled mixed ∧ Reads (shelf "d" mixed) () "d" mixed ∧
      ∃ added c failures,
        (∀ listed : List Entry, listed.Perm mixed → ∀ fresh : Nat → String,
          (loadDir explain (shelf "d" mixed) "d" fresh (.ok (listed.map (·.file)))).run () =
            pure (.ok (c, failures), ())) ∧
        Accounts explain "d" mixed added c failures ∧
        failures = [⟨"c.json", "invalid script JSON in c.json: \"no script\" is not JSON"⟩,
          ⟨"e.json", "Failed to read d/e.json: Is a directory (os error 21)"⟩] ∧
        c.size = 2 ∧ (c.get? "u").map (·.name) = some "b" ∧
        (c.withTrigger "enter" "inn").map (·.name) = ["d"] := by
  intro explain
  have hsettled : Settled mixed := {
    distinct := by decide +kernel
    identified := by
      simp only [← isScriptFile_iff]
      decide +kernel }
  have hreads : Reads (shelf "d" mixed) () "d" mixed := by
    intro e he _
    have hfound : ∀ e ∈ mixed, contentAt "d" mixed (Path.join "d" e.file) = e.content := by
      decide +kernel
    exact congrArg (fun content => (content, ())) (hfound e he)
  refine ⟨hsettled, hreads, ?_⟩
  obtain ⟨added, c, failures, hload, haccounts⟩ :=
    loadDir_accounts explain (shelf "d" mixed) () "d" mixed hsettled hreads
  refine ⟨added, c, failures, hload, haccounts, ?_⟩
  -- Sorting does not evaluate, but only one order of the script files is ascending.
  have hfiles : scriptFiles mixed = [3, 0, 4, 6, 2].filterMap (mixed[·]?) := by
    refine List.Perm.eq_of_pairwise (fun _ _ _ _ hab hba => absurd hba (String.lt_asymm hab))
      (scriptFiles_ascending hsettled.distinct) (by decide +kernel) ?_
    exact (scriptFiles_perm_filter mixed).trans (by decide +kernel)
  have hrun := hload mixed .rfl fun _ => ""
  rw [loadDir_run hsettled .rfl hreads, hfiles] at hrun
  obtain ⟨rfl, rfl⟩ := Prod.mk.inj (Except.ok.inj (Prod.mk.inj hrun).1)
  decide +kernel

end Catalogue

end Parley
