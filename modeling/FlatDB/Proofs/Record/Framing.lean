/-
# Where one record ends and the next begins

A data file is framed by nothing but its newlines.  Reading a file that was written
line by line yields what was written, so the format loses nothing.

Adding a record writes its line at the end of the file without looking at what is
there.  If the file is empty or ends in a newline, as it does after every write that
was completed, the record is one more entry.  If its last line was torn, the new line
goes on where that one stops: there are as many entries as before, and the last one is
made of both.
-/

import FlatDB.Proofs.Record.Custody

namespace FlatDB

namespace Record

theorem lineBody_ne_empty (id : RecordId) (r : Record) : r.lineBody id ≠ "" :=
  fun empty => absurd (String.isEmpty_iff.2 empty) (by rw [isEmpty_lineBody]; simp)

/-- Whatever stands before it on its line, the line of a record has no ending in it. -/
theorem isLine_append_lineBody {rest : String} (none : '\n' ∉ rest.toList) (id : RecordId)
    (r : Record) : Source.IsLine (rest ++ r.lineBody id) := by
  have filled : (r.lineBody id).toList ≠ [] := by simpa using lineBody_ne_empty id r
  have last : (rest ++ r.lineBody id).toList.getLast? = (r.lineBody id).toList.getLast? := by
    rw [String.toList_append, List.getLast?_append, List.getLast?_eq_some_getLast filled,
      Option.some_or]
  refine ⟨?_, ?_⟩
  · rw [String.toList_append, List.mem_append, not_or]
    exact ⟨none, (isLine_lineBody id r).1⟩
  · rw [last]
    exact (isLine_lineBody id r).2

end Record

namespace Entries

variable {table : String} {arity : Nat}

/-- Entries are told line by line, and only their numbers depend on the lines before. -/
theorem ofLines_append (front : List String) (back : List (Except Fault String)) (number : Nat) :
    ofLines table arity number (front.map .ok ++ back) =
      ofLines table arity number (front.map .ok) ++
        ofLines table arity (number + front.length) back := by
  induction front generalizing number with
  | nil => simp [ofLines]
  | cons line front ih =>
      have numbers : number + 1 + front.length = number + (front.length + 1) := by omega
      simp only [List.map_cons, List.cons_append, ofLines, ih, List.length_cons, numbers]
      split <;> rfl

/-- The entry of a line that is not empty. -/
theorem ofLines_singleton {line : String} (ne : line ≠ "") (number : Nat) :
    ofLines table arity number [.ok line] =
      [atLine table number (Record.ofLineWithArity arity line)] := by
  simp [ofLines, ne]

/-- What comes after ended lines adds entries to theirs. -/
theorem ofSource_append (table : String) (arity : Nat) {front : String} (h : Source.IsEnded front) :
    ∃ number, ∀ rest, ofSource table arity (.content (Utf8.encode (front ++ rest))) =
      ofSource table arity (.content (Utf8.encode front)) ++
        ofLines table arity number (Source.content (Utf8.encode rest)).lines := by
  obtain ⟨ls, read⟩ := Source.exists_lines front.toList
  rw [String.ofList_toList] at read
  refine ⟨1 + ls.length, fun rest => ?_⟩
  rw [ofSource, Source.lines_append h, read, ofLines_append, ofSource, read]

/-- The line of a record goes on where the text before it stops: with what is there since
the last newline it makes one entry, and what is there would be one too unless there is
nothing. -/
theorem ofSource_append_line (table : String) (arity : Nat) {front rest : String}
    (ended : Source.IsEnded front) (none : '\n' ∉ rest.toList) (id : RecordId) (record : Record) :
    ∃ number,
      ofSource table arity (.content (Utf8.encode (front ++ rest ++ record.line id))) =
        ofSource table arity (.content (Utf8.encode front)) ++
          [atLine table number (Record.ofLineWithArity arity (rest ++ record.lineBody id))] ∧
      (rest ≠ "" → ofSource table arity (.content (Utf8.encode (front ++ rest))) =
        ofSource table arity (.content (Utf8.encode front)) ++
          [atLine table number (Record.ofLineWithArity arity rest)]) := by
  obtain ⟨number, entries⟩ := ofSource_append table arity ended
  refine ⟨number, ?_, fun more => ?_⟩
  · have line := Source.lines_encode_append (Record.isLine_append_lineBody none id record) ""
    have filled : rest ++ record.lineBody id ≠ "" := fun empty =>
      Record.lineBody_ne_empty id record (String.append_eq_empty_iff.1 empty).2
    rw [String.append_assoc, entries, Record.line_eq, ← String.append_assoc, ← String.append_empty
      (s := _ ++ "\n"), line]
    exact congrArg _ (ofLines_singleton filled number)
  · rw [entries, Source.lines_of_not_mem none more, ofLines_singleton more]

end Entries

namespace RecordFile

open FileTree

variable {d : Disk} {s : RecordFile} {l : Lodging} {stored : List Stored}

/-! ## Reading what was written -/

/-- Reading a data file that was written line by line yields exactly the records it was
written for, whatever text their fields hold, and as many of them; and the id of each line
is the one it was written with. -/
theorem reads_written (arity : ∀ r ∈ stored, r.2.arity = s.arity)
    (read : (d.step (.read s.data)).1 = .ok (.content (Utf8.encode (Entries.text stored)))) :
    (d.perform s.scan).1 = .ok (stored.map .ok) ∧
    (d.perform s.records).1 = .ok stored ∧
    (d.perform s.size).1 = .ok stored.length ∧
    ∃ lines : List String, (Source.content (Utf8.encode (Entries.text stored))).lines = lines.map .ok ∧
      lines.map Record.idOfLine = stored.map fun r => .ok r.1 := by
  have scanned : (d.perform s.scan).1 = .ok (stored.map .ok) := by
    rw [perform_scan_of_read read, Entries.ofSource_text arity]
  have asked : d.perform (Action.ask (.read s.data)) =
      (.ok (.ok (.content (Utf8.encode (Entries.text stored)))), (d.step (.read s.data)).2) :=
    Prod.ext (congrArg Except.ok read) rfl
  refine ⟨scanned, ?_, ?_, ?_⟩
  · have scan : d.perform s.scan = (.ok (stored.map .ok), (d.perform s.scan).2) :=
      Prod.ext scanned rfl
    rw [records, Disk.perform_bind, scan]
    simp
  · simp only [size, Action.read, Disk.perform_bind, asked, Disk.perform_ofReply_ok,
      Entries.count_text, Disk.perform_ofResult]
  · refine ⟨stored.map fun r => r.2.lineBody r.1, ?_, ?_⟩
    · rw [Entries.lines_text, List.map_map]
      rfl
    · simp

/-- Records whose fields look like separators, line endings, escapes and lines, and end in a
carriage return, a backslash or nothing. -/
def Entries.awkward : List Stored :=
  [(7, ⟨["a\tb\n8\tc", "x\r", ""]⟩), (3, ⟨["\\n", "\r\n", "\\"]⟩), (7, ⟨["", "", ""]⟩)]

theorem reads_written_awkward :
    let bytes := Utf8.encode (Entries.text Entries.awkward)
    let d : Disk := ⟨FileTree.empty.put ["data"] (.file bytes), []⟩
    let s : RecordFile := ⟨"letters", ⟨"data"⟩, ⟨"counter"⟩, 3, 0, true⟩
    (∀ r ∈ Entries.awkward, r.2.arity = 3) ∧
      (d.perform s.scan).1 = .ok (Entries.awkward.map .ok) ∧ (d.perform s.size).1 = .ok 3 := by
  intro bytes d s
  have arity : ∀ r ∈ Entries.awkward, r.2.arity = s.arity := by decide
  have read : (d.step (.read s.data)).1 = .ok (.content bytes) := by decide +kernel
  obtain ⟨scanned, -, counted, -⟩ := reads_written arity read
  exact ⟨arity, scanned, counted⟩

/-! ## Adding to what is there -/

/-- An opened store is the one that was asked for, up to its counter. -/
theorem exists_lastId_of_load {table : String} {data counter : Path} {arity : Nat} {sync : Bool}
    (opened : (d.perform (load table data counter arity sync)).1 = .ok s) :
    ∃ lastId, s = ⟨table, data, counter, arity, lastId, sync⟩ := by
  unfold load at opened
  obtain ⟨kind, -, opened⟩ := Disk.perform_bind_eq_ok opened
  by_cases file : kind = some .file
  · simp only [file, ne_eq, not_true_eq_false, if_false] at opened
    obtain ⟨lastId, -, made⟩ := Disk.perform_bind_eq_ok opened
    exact ⟨lastId, (Except.ok.inj made).symm⟩
  · simp only [ne_eq, file, not_false_eq_true, if_true] at opened
    cases opened

/-- An addition that is reported to have been made has put the line of the record at the
end of the data file, whatever is there. -/
theorem ensures_append_line (dataSite : d.tree.Site s.data l.data l.besideData)
    (counterSite : d.tree.Site s.counter l.counter l.besideCounter) {content : Bytes}
    (file : d.tree.at? l.data = some (.file content)) (record : Record) :
    (append record).Ensures (fun _ _ => False)
      (fun x s' d' => ∀ id, x = .ok id → s' = { s with lastId := id } ∧
        (d'.step (.read s.data)).1 =
          .ok (.content (content ++ Utf8.encode (record.line id)))) s d := by
  rw [append]
  refine .bind_get ?_
  dsimp only
  split
  · exact .throw Result.of_error
  refine .bind (Q := fun x s' d' => s' = s ∧ (x = .ok () →
    d'.tree.Site s.data l.data l.besideData ∧ d'.tree.at? l.data = some (.file content)))
    (.ofAction ?_) ?_ fun e s' d' _ => Result.of_error
  · refine (counterSite.ensures_replace (fun _ _ _ impossible => impossible.elim) _ s.sync).mono ?_
    rintro x d' ⟨stirs, -⟩
    refine ⟨rfl, fun _ => ⟨?_, ?_⟩⟩
    · exact dataSite.apart_stirs stirs (counterSite.keeps stirs) l.apart l.apart_beside
        l.beside_apart l.beside_apart_beside
    · rw [stirs.elsewhere l.data l.apart.ne l.apart_beside.ne, file]
  · rintro _ s' d' ⟨rfl, there⟩
    obtain ⟨site, same⟩ := there rfl
    refine .bind_set (.bind (Q := fun x s'' d'' => s'' = { s' with lastId := s'.lastId + 1 } ∧
      (x = .ok () → (d''.step (.read s'.data)).1 =
        .ok (.content (content ++ Utf8.encode (record.line (s'.lastId + 1))))))
      (.ofAction ?_) ?_ fun e s'' d'' _ => Result.of_error)
    · refine (site.ensures_append same _ s'.sync fun _ impossible => impossible.elim).mono ?_
      rintro x d'' ⟨stirs, more⟩
      refine ⟨rfl, fun made => ?_⟩
      subst made
      have site' := site.stirs stirs
      simp only [Disk.step, look_of_place site'.place site'.noSlash, more]
    · rintro _ s'' d'' ⟨rfl, read⟩
      refine .pure fun id same => ?_
      obtain rfl := Except.ok.inj same
      exact ⟨rfl, read rfl⟩

/-- A record that is added becomes one more entry, and no other entry changes, exactly if
the data file was empty or ended in a newline.  Otherwise there are as many entries as
before, and all but the last are the same. -/
theorem append_adds_entry_iff {table : String} {data counter : Path} {arity : Nat} {sync : Bool}
    {text : String} {record : Record} {id : RecordId} {s' : RecordFile} {d' : Disk}
    (dataSite : d.tree.Site data l.data l.besideData)
    (counterSite : d.tree.Site counter l.counter l.besideCounter)
    (file : d.tree.at? l.data = some (.file (Utf8.encode text)))
    (opened : (d.perform (load table data counter arity sync)).1 = .ok s)
    (fits : record.arity = arity) (added : d.update s (append record) = (.ok id, s', d')) :
    ∃ before after, (d.perform s.scan).1 = .ok before ∧ (d'.perform s'.scan).1 = .ok after ∧
      (after = before ++ [.ok (id, record)] ↔ Source.IsEnded text) ∧
      (¬ Source.IsEnded text → after.length = before.length ∧
        after.dropLast = before.dropLast) := by
  obtain ⟨lastId, rfl⟩ := exists_lastId_of_load opened
  have ensured := (ensures_append_line (s := ⟨table, data, counter, arity, lastId, sync⟩) dataSite
    counterSite file record).updateUnder (List.forall_mem_nil _)
  rw [Disk.updateUnder_nil, added] at ensured
  obtain ⟨rfl, read'⟩ := ensured id rfl
  have read : (d.step (.read data)).1 = .ok (.content (Utf8.encode text)) := by
    simp only [Disk.step, look_of_place dataSite.place dataSite.noSlash, file]
  rw [← Utf8.encode_append] at read'
  refine ⟨_, _, perform_scan_of_read read, perform_scan_of_read read', ?_⟩
  obtain ⟨front, rest, rfl, ended, none⟩ := Source.exists_isEnded_append text
  obtain ⟨number, later, earlier⟩ := Entries.ofSource_append_line table arity ended none
    id record
  dsimp only
  rw [Source.isEnded_append_iff ended none, later]
  by_cases empty : rest = ""
  · refine ⟨iff_of_true ?_ empty, fun torn => absurd empty torn⟩
    rw [empty, String.empty_append, String.append_empty, ← fits, Record.ofLineWithArity_lineBody,
      Entries.atLine]
  · rw [earlier empty]
    have length {before : List (Except Error Stored)} {x y : Except Error Stored} :
        (before ++ [x]).length = (before ++ [y]).length := by simp
    refine ⟨iff_of_false (fun more => ?_) empty, fun _ => ⟨length, ?_⟩⟩
    · have longer := congrArg List.length more
      simp at longer
    · rw [List.dropLast_concat, List.dropLast_concat]

/-- A disk with a store whose last write stopped after the id of the second record. -/
def torn : Disk :=
  ⟨(FileTree.empty.put ["data"] (.file (Utf8.encode "1\ta\n2"))).put ["counter"]
    (.file (Utf8.encode "2")), []⟩

theorem sites_torn :
    torn.tree.Site ⟨"data"⟩ Custody.outermost.data Custody.outermost.besideData ∧
      torn.tree.Site ⟨"counter"⟩ Custody.outermost.counter Custody.outermost.besideCounter :=
  Custody.sites_put _ _

theorem append_adds_entry_iff_torn :
    let s : RecordFile := ⟨"letters", ⟨"data"⟩, ⟨"counter"⟩, 1, 2, true⟩
    let (added, s', d') := torn.update s (append ⟨["c"]⟩)
    (torn.perform (load "letters" ⟨"data"⟩ ⟨"counter"⟩ 1 true)).1 = .ok s ∧ added = .ok 3 ∧
      ∃ before after, (torn.perform s.scan).1 = .ok before ∧ (d'.perform s'.scan).1 = .ok after ∧
        after ≠ before ++ [.ok (3, ⟨["c"]⟩)] ∧ after.length = before.length := by
  intro s
  have opened : (torn.perform (load "letters" ⟨"data"⟩ ⟨"counter"⟩ 1 true)).1 = .ok s := by
    decide +kernel
  have added : (torn.update s (append ⟨["c"]⟩)).1 = .ok 3 := by decide +kernel
  have file : torn.tree.at? Custody.outermost.data = some (.file (Utf8.encode "1\ta\n2")) := by
    decide +kernel
  have unended : ¬ Source.IsEnded "1\ta\n2" := by decide
  generalize done : torn.update s (append ⟨["c"]⟩) = result at added ⊢
  obtain ⟨x, s', d'⟩ := result
  obtain rfl : x = .ok 3 := added
  obtain ⟨before, after, first, second, adds, torn⟩ := append_adds_entry_iff sites_torn.1
    sites_torn.2 file opened rfl done
  exact ⟨opened, rfl, before, after, first, second, fun more => unended (adds.1 more),
    (torn unended).1⟩

/-- The record with the id 3 is handed out and then is not there; instead there is a record
with the id 23 in place of the torn line. -/
theorem torn_line_continued :
    let s : RecordFile := ⟨"letters", ⟨"data"⟩, ⟨"counter"⟩, 1, 2, true⟩
    let (added, s', d') := torn.update s (append ⟨["c"]⟩)
    let damaged : Error := .damagedRecord "letters" 2 (.wrongArity 1 0)
    (torn.perform (load "letters" ⟨"data"⟩ ⟨"counter"⟩ 1 true)).1 = .ok s ∧
      (torn.perform s.scan).1 = .ok [.ok (1, ⟨["a"]⟩), .error damaged] ∧ added = .ok 3 ∧
      (d'.perform s'.scan).1 = .ok [.ok (1, ⟨["a"]⟩), .ok (23, ⟨["c"]⟩)] ∧
      (d'.perform s'.scan).1 ≠ .ok [.ok (1, ⟨["a"]⟩), .error damaged, .ok (3, ⟨["c"]⟩)] := by
  decide +kernel

end RecordFile

end FlatDB
