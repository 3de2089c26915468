import GraphSql.CommandLine.Run
import GraphSql.Proofs.NTriples.Lines

namespace GraphSql

-- Canonical files: the output of the parse command is a file of canonical lines, and parsing it
-- again changes nothing.

namespace Text

theorem splitAt_front {c : Char} {front : List Char} (fresh : c ∉ front) (rest : List Char) :
    splitAt c (front ++ c :: rest) = front :: splitAt c rest := by
  induction front with
  | nil => simp [splitAt]
  | cons d front ih =>
    rw [List.mem_cons, not_or] at fresh
    rw [List.cons_append, splitAt, if_neg (Ne.symm fresh.1), ih fresh.2]

theorem not_mem_of_mem_splitAt {c : Char} {cs part : List Char} (member : part ∈ splitAt c cs) :
    c ∉ part := by
  induction cs generalizing part with
  | nil => simp_all [splitAt]
  | cons d rest ih =>
    rw [splitAt] at member
    split at member
    next =>
      rcases List.mem_cons.mp member with rfl | later
      · simp
      · exact ih later
    next different =>
      split at member
      next => simp_all [Ne.symm different]
      next first parts split =>
        rw [split] at ih
        rcases List.mem_cons.mp member with rfl | later
        · rw [List.mem_cons, not_or]
          exact ⟨Ne.symm different, ih List.mem_cons_self⟩
        · exact ih (List.mem_cons_of_mem _ later)

end Text

namespace CommandLine
open NTriples Text

theorem toList_endLines (lines : List String) :
    (endLines lines).toList = lines.flatMap fun line => line.toList ++ ['\n'] := by
  induction lines with
  | nil => rfl
  | cons line rest ih =>
    rw [endLines] at ih
    simp [endLines, String.join_cons, ih]

theorem linesOf_flatMap {lines : List (List Char)} (fresh : ∀ line ∈ lines, '\n' ∉ line) :
    linesOf (lines.flatMap fun line => line ++ ['\n']) = lines := by
  have parts : splitAt '\n' (lines.flatMap fun line => line ++ ['\n']) = lines ++ [[]] := by
    induction lines with
    | nil => rfl
    | cons line rest ih =>
      have later := ih fun line member => fresh line (List.mem_cons_of_mem _ member)
      rw [List.flatMap_cons, List.append_assoc, List.singleton_append,
        splitAt_front (fresh line List.mem_cons_self), later, List.cons_append]
  rw [linesOf, parts, List.reverse_append]
  exact List.reverse_reverse lines

theorem not_mem_of_mem_linesOf {text line : List Char} (member : line ∈ linesOf text) :
    '\n' ∉ line := by
  have part : line ∈ splitAt '\n' text := by
    unfold linesOf at member
    split at member
    next front split =>
      rw [← List.mem_reverse, split]
      exact List.mem_cons_of_mem _ (List.mem_reverse.mp member)
    next => rwa [List.reverse_reverse] at member
  exact not_mem_of_mem_splitAt part

theorem readLine_ok {line : List Char} {t : Triple} (single : '\n' ∉ line)
    (read : readLine line = some (.ok t)) : Clear t ∧ '\n' ∉ t.chars := by
  have inner : readTriple (trimChars line) = .ok t := by
    unfold readLine at read
    split at read
    next => cases read
    next => cases read
    next => exact Option.some.inj read
  refine ⟨clear_of_readTriple inner, ?_⟩
  intro member
  exact single (mem_of_mem_trimChars (mem_line_of_mem_chars inner member (by decide)))

-- A canonical line starts with `<` and ends with a dot, so that nothing is cut off.
theorem readLine_chars {t : Triple} (clear : Clear t) : readLine t.chars = some (.ok t) := by
  have start : ∃ rest, t.chars = '<' :: rest := ⟨_, rfl⟩
  have dot : t.chars.getLast? = some '.' := by
    rw [Triple.chars, List.getLast?_append_of_ne_nil _ (by simp)]
    rfl
  have trimmed : trimChars t.chars = t.chars := by
    obtain ⟨rest, first⟩ := start
    have front : t.chars.dropWhile isBlank = t.chars := by
      rw [first]
      rfl
    rw [trimChars, front]
    apply trimEnd_of_last
    intro c last
    cases dot.symm.trans last
    rfl
  obtain ⟨rest, first⟩ := start
  have read := readTriple_chars clear
  rw [first] at trimmed read ⊢
  rw [readLine, trimmed]
  exact congrArg some read

def tripleOf? (line : List Char) : Option Triple := (readLine line).bind Except.toOption

theorem readLine_of_tripleOf? {line : List Char} {t : Triple} (found : tripleOf? line = some t) :
    readLine line = some (.ok t) := by
  obtain ⟨result, read, kept⟩ := Option.bind_eq_some_iff.mp found
  cases result with
  | error e => cases kept
  | ok other =>
    cases kept
    exact read

def triplesOf (text : String) : List Triple := (linesOf text.toList).filterMap tripleOf?

theorem mem_triplesOf {text : String} {t : Triple} (member : t ∈ triplesOf text) :
    Clear t ∧ '\n' ∉ t.chars := by
  obtain ⟨line, present, found⟩ := List.mem_filterMap.mp member
  exact readLine_ok (not_mem_of_mem_linesOf present) (readLine_of_tripleOf? found)

theorem output_canonical (file text : String) :
    (canonical file text).output = endLines ((triplesOf text).map Triple.display) := by
  have numbered : (linesOf text.toList).filterMap (fun line => (tripleOf? line).map Triple.display) =
      (linesOf text.toList).zipIdx.filterMap
        ((fun line => (tripleOf? line).map Triple.display) ∘ Prod.fst) := by
    rw [← List.filterMap_map, List.zipIdx_map_fst]
  simp only [canonical, triplesOf, List.filterMap_filterMap, List.map_filterMap, numbered]
  congr 2
  funext entry
  simp only [Function.comp, tripleOf?]
  cases readLine entry.1 <;> rfl

theorem canonical_of_read (file text : String)
    (read : ∀ line ∈ linesOf text.toList, ∃ t, readLine line = some (.ok t)) :
    canonical file text = .success (canonical file text).output := by
  have none : (canonical file text).errors = [] := by
    simp only [canonical, List.filterMap_filterMap, List.filterMap_eq_nil_iff]
    intro entry member
    obtain ⟨t, found⟩ := read entry.1 (List.fst_mem_of_mem_zipIdx member)
    simp only [found]
    rfl
  have whole : canonical file text =
      ⟨if (canonical file text).errors.isEmpty then 0 else 1, (canonical file text).output,
        (canonical file text).errors, false, []⟩ := rfl
  rw [none] at whole
  exact whole

theorem linesOf_output (file text : String) :
    linesOf (canonical file text).output.toList = (triplesOf text).map Triple.chars := by
  have chars : ∀ triples : List Triple, (endLines (triples.map Triple.display)).toList =
      (triples.map Triple.chars).flatMap fun line => line ++ ['\n'] := by
    intro triples
    rw [toList_endLines, List.flatMap_map, List.flatMap_map]
    simp only [Triple.display, String.toList_ofList]
  rw [output_canonical, chars]
  apply linesOf_flatMap
  intro line member
  obtain ⟨t, among, rfl⟩ := List.mem_map.mp member
  exact (mem_triplesOf among).2

theorem triplesOf_output (file text : String) :
    triplesOf (canonical file text).output = triplesOf text := by
  rw [triplesOf, linesOf_output, List.filterMap_map]
  calc (triplesOf text).filterMap (tripleOf? ∘ Triple.chars)
      = (triplesOf text).filterMap some := by
        apply List.filterMap_congr
        intro t member
        rw [Function.comp, tripleOf?, readLine_chars (mem_triplesOf member).1]
        rfl
    _ = triplesOf text := List.filterMap_some

theorem canonical_output (file again text : String) :
    canonical again (canonical file text).output = .success (canonical file text).output := by
  rw [canonical_of_read, output_canonical again, triplesOf_output, ← output_canonical file text]
  intro line member
  rw [linesOf_output] at member
  obtain ⟨t, among, rfl⟩ := List.mem_map.mp member
  exact ⟨t, readLine_chars (mem_triplesOf among).1⟩

theorem run_parse {host : Host Id} {args : List String} {verbose : Bool} {file text : String}
    (asked : Request.ofArguments? args = some (.run verbose (.parse file)))
    (held : host.file file = .content text) :
    run host args = { canonical file text with verbose := verbose } := by
  unfold run
  rw [asked]
  change { parseFile file (host.file file) with verbose := verbose } = _
  rw [held, parseFile]

-- For every file: parsing the output of the parse command, under any name and with any flags, ends
-- with success, reports nothing, and has that output again. Lines of the first file may fail.
theorem run_parse_output {host later : Host Id} {args arguments : List String}
    {verbose loud : Bool} {file path text : String}
    (asked : Request.ofArguments? args = some (.run verbose (.parse file)))
    (held : host.file file = .content text)
    (askedAgain : Request.ofArguments? arguments = some (.run loud (.parse path)))
    (stored : later.file path = .content (run host args).output) :
    run later arguments = { Report.success (run host args).output with verbose := loud } := by
  rw [run_parse asked held] at stored ⊢
  rw [run_parse askedAgain stored, canonical_output]

namespace Messages

def source : String :=
  "# messages\r\n<urn:m1>\t<urn:says>  \"caf\\u00E9\"@fr x\ry  . \r\n\n<urn:m2> <urn:says> .\n" ++
    "  <urn:m3> <urn:to> <urn:m1> ."

def printed : String :=
  "<urn:m1> <urn:says> \"caf\\u00E9\"@fr x\ry .\n<urn:m3> <urn:to> <urn:m1> .\n"

def host (content : String) : Host Id where
  file path := if path = "messages.nt" then .content content else .absent
  setting _ := none
  fault? _ := none
  manual _ _ := ""
  complaint _ := ""

theorem asked :
    Request.ofArguments? ["parse", "messages.nt"] = some (.run false (.parse "messages.nt")) := by
  decide +kernel

theorem asked_again : Request.ofArguments? ["-v", "parse", "messages.nt"] =
    some (.run true (.parse "messages.nt")) := by
  decide +kernel

theorem run_source : (run (host source) ["parse", "messages.nt"]).code = 1 ∧
    (run (host source) ["parse", "messages.nt"]).output = printed := by
  decide +kernel

theorem stored : (host printed).file "messages.nt" =
    .content (run (host source) ["parse", "messages.nt"]).output := by
  rw [run_source.2]
  rfl

end Messages

theorem run_parse_output_messages :
    (Messages.host Messages.source).file "messages.nt" = .content Messages.source ∧
      (run (Messages.host Messages.source) ["parse", "messages.nt"]).code = 1 ∧
      (Messages.host Messages.printed).file "messages.nt" =
        .content (run (Messages.host Messages.source) ["parse", "messages.nt"]).output ∧
      run (Messages.host Messages.printed) ["-v", "parse", "messages.nt"] =
        { Report.success (run (Messages.host Messages.source) ["parse", "messages.nt"]).output with
          verbose := true } :=
  ⟨rfl, Messages.run_source.1, Messages.stored,
    run_parse_output Messages.asked rfl Messages.asked_again Messages.stored⟩

end CommandLine

end GraphSql
