import NodeTagging.Proofs.LineBreaks

/-!
# Reading the classifier script

The text of the script is read back here. The lines of the function that classifies a node are those
from its first line to the first one without text. Each says something at a depth of indentation
(`ScriptPhrase`), and the reading of them stands at the top of the function, inside a branch or at
the end (`ScriptPlace`).

* `ScriptReading.readLines_clauseLines`: the lines of a clause are read as the clause with the word
  that begins it, whatever was read before;
* `ClassifierScript.ofText?_fileOfLines`: so a script is read from its text as it is, and of the
  words that begin a test at its top the first is `if` and all others are `elif`;
* `ClassifierScript.plan?_ofTaxonomy`: and a script says which plan it was made from.
-/

namespace NodeTagging

/-! ### Phrases -/

namespace NodeTest

/-- The class that a test is for. -/
def className : NodeTest → String
  | .byClass c | .byName c => c

/-- The test that an expression is. -/
def ofText? (s : List Char) : Option NodeTest :=
  ((between? "node is " "" s).map byClass).or
    ((between? "ClassDB.is_parent_class(node.get_class(), \"" "\")" s).map byName)

variable {test : NodeTest} (hname : Json.NamePattern.identifier.matches? test.className)

include hname

theorem ofText?_text : ofText? test.text.toList = some test := by
  cases test with
  | byClass c =>
    have hbetween : between? "node is " "" (text (.byClass c)).toList = some c := by
      refine between?_eq_some_iff.2 ?_
      dsimp only [text]
      simp
    rw [ofText?, hbetween]
    rfl
  | byName c =>
    have hquoted : Text.quoted c = "\"" ++ c ++ "\"" := quoted_of_identifier hname
    have hnone : between? "node is " "" (text (.byName c)).toList = none := by
      refine between?_eq_none ?_
      dsimp only [text]
      simp
    have hbetween : between? "ClassDB.is_parent_class(node.get_class(), \"" "\")"
        (text (.byName c)).toList = some c := by
      refine between?_eq_some_iff.2 ?_
      dsimp only [text]
      simp [hquoted]
    rw [ofText?, hnone, hbetween]
    rfl

theorem colon_not_mem_text : ':' ∉ test.text.toList := by
  cases test with
  | byClass c =>
    have hcolon : ':' ∉ c.toList := colon_not_mem_of_identifier hname
    dsimp only [text]
    simp [hcolon]
  | byName c =>
    have hcolon : ':' ∉ c.toList := colon_not_mem_of_identifier hname
    have hquoted : Text.quoted c = "\"" ++ c ++ "\"" := quoted_of_identifier hname
    dsimp only [text]
    simp [hquoted, hcolon]

end NodeTest

/-- What a line of the function says after its indentation. -/
inductive ScriptPhrase where
  /-- A test after the word that begins it, with the answer if that stands in the same line. -/
  | test (keyword : String) (test : NodeTest) (answer? : Option String)
  /-- An answer. -/
  | answer (name : String)
deriving DecidableEq, Repr

namespace ScriptPhrase

/-- A test that a word begins. It ends at the first colon. -/
def testAfter? (keyword : String) (s : List Char) : Option ScriptPhrase :=
  match (keyword ++ " ").toList.isPrefixOf? s with
  | none => none
  | some rest =>
    match NodeTest.ofText? (rest.takeWhile fun c => c ≠ ':') with
    | none => none
    | some node =>
      if rest.dropWhile (fun c => c ≠ ':') = [':'] then some (.test keyword node none)
      else (between? ": return \"" "\"" (rest.dropWhile fun c => c ≠ ':')).map fun name =>
        .test keyword node (some name)

/-- What a line says, if it has a place in the function. -/
def ofText? (s : List Char) : Option ScriptPhrase :=
  ((between? "return \"" "\"" s).map answer).or
    (["if", "elif"].findSome? fun keyword => testAfter? keyword s)

theorem testAfter?_eq_none {keyword : String} {s : List Char}
    (h : ¬ (keyword ++ " ").toList <+: s) : testAfter? keyword s = none := by
  have hnone : (keyword ++ " ").toList.isPrefixOf? s = none := by
    refine Option.eq_none_iff_forall_ne_some.2 fun rest hrest => h ?_
    rw [← List.isPrefixOf?_eq_some_iff_append_eq.1 hrest]
    exact List.prefix_append _ _
  rw [testAfter?, hnone]

/-- An answer is read as it is. -/
theorem ofText?_answer {name : String} (hname : Json.NamePattern.identifier.matches? name) :
    ofText? ("return " ++ Text.quoted name).toList = some (.answer name) := by
  have hbetween : between? "return \"" "\"" ("return " ++ Text.quoted name).toList = some name :=
    between?_eq_some_iff.2 (by simp [quoted_of_identifier hname])
  rw [ofText?, hbetween]
  rfl

section Test

variable {keyword : String} (hkeyword : keyword = "if" ∨ keyword = "elif")

include hkeyword

/-- The word that begins a test is no answer and not the other word. -/
theorem ofText?_keyword (s : List Char) :
    ofText? ((keyword ++ " ").toList ++ s) = testAfter? keyword ((keyword ++ " ").toList ++ s) := by
  have hanswer : between? "return \"" "\"" ((keyword ++ " ").toList ++ s) = none := by
    rcases hkeyword with rfl | rfl <;> exact between?_eq_none (by simp)
  rw [ofText?, hanswer, Option.map_none, Option.none_or]
  rcases hkeyword with rfl | rfl
  · have hother : testAfter? "elif" (("if" ++ " ").toList ++ s) = none :=
      testAfter?_eq_none (by simp)
    rw [List.findSome?_cons, List.findSome?_singleton, hother]
    cases testAfter? "if" (("if" ++ " ").toList ++ s) <;> rfl
  · have hother : testAfter? "if" (("elif" ++ " ").toList ++ s) = none :=
      testAfter?_eq_none (by simp)
    rw [List.findSome?_cons, List.findSome?_singleton, hother]

variable {test : NodeTest} (hname : Json.NamePattern.identifier.matches? test.className)

include hname

/-- What follows the test decides whether it has an answer. -/
theorem ofText?_test (after : List Char) :
    ofText? ((keyword ++ " ").toList ++ (test.text.toList ++ ':' :: after)) =
      if ':' :: after = [':'] then some (.test keyword test none)
      else (between? ": return \"" "\"" (':' :: after)).map fun name =>
        .test keyword test (some name) := by
  have hprefix : (keyword ++ " ").toList.isPrefixOf?
      ((keyword ++ " ").toList ++ (test.text.toList ++ ':' :: after)) =
      some (test.text.toList ++ ':' :: after) :=
    List.isPrefixOf?_eq_some_iff_append_eq.2 rfl
  have hcolon : ':' ∉ test.text.toList := NodeTest.colon_not_mem_text hname
  rw [ofText?_keyword hkeyword, testAfter?, hprefix]
  simp only [takeWhile_ne_append_cons hcolon, dropWhile_ne_append_cons hcolon,
    NodeTest.ofText?_text hname]

/-- The head of a branch has nothing after its test. -/
theorem ofText?_head :
    ofText? (keyword ++ " " ++ test.text ++ ":").toList = some (.test keyword test none) := by
  have htext := ofText?_test hkeyword hname []
  rw [if_pos rfl] at htext
  simpa using htext

/-- A probe has its answer after its test. -/
theorem ofText?_probeLine {name : String} (hanswer : Json.NamePattern.identifier.matches? name) :
    ofText? (ClassifierScript.probeLine keyword ⟨test, name⟩).toList =
      some (.test keyword test (some name)) := by
  have hquoted : Text.quoted name = "\"" ++ name ++ "\"" := quoted_of_identifier hanswer
  have hline : (ClassifierScript.probeLine keyword ⟨test, name⟩).toList = (keyword ++ " ").toList ++
      (test.text.toList ++ ':' :: (" return " ++ Text.quoted name).toList) := by
    rw [ClassifierScript.probeLine_eq]
    simp
  have hbetween : between? ": return \"" "\"" (':' :: (" return " ++ Text.quoted name).toList) =
      some name :=
    between?_eq_some_iff.2 (by simp [hquoted])
  rw [hline, ofText?_test hkeyword hname, if_neg (by simp), hbetween]
  rfl

end Test

/-- The words of the function do not begin with a tab. -/
theorem head?_ne_tab_of_ofText? {s : List Char} {phrase : ScriptPhrase}
    (h : ofText? s = some phrase) : s.head? ≠ some '\t' := by
  intro htab
  obtain ⟨rest, rfl⟩ := List.head?_eq_some_iff.1 htab
  have hanswer : between? "return \"" "\"" ('\t' :: rest) = none := between?_eq_none (by simp)
  have hif : testAfter? "if" ('\t' :: rest) = none := testAfter?_eq_none (by simp)
  have helif : testAfter? "elif" ('\t' :: rest) = none := testAfter?_eq_none (by simp)
  simp [ofText?, hanswer, hif, helif] at h

end ScriptPhrase

/-! ### Reading lines -/

/-- Where in the function its reading stands. -/
inductive ScriptPlace where
  /-- At the top, between clauses. -/
  | top
  /-- Inside a branch, after its head and some probes. -/
  | inside (keyword : String) (test : NodeTest) (probes : List ScriptProbe)
  /-- After the last answer. -/
  | ended (fallback : String)
deriving DecidableEq, Repr

/-- What has been read of the function. -/
structure ScriptReading where
  /-- The clauses that have been read to their ends, with the words that begin them. -/
  clauses : List (String × ScriptClause)
  /-- Where the reading stands. -/
  place : ScriptPlace
deriving DecidableEq, Repr

namespace ScriptReading

/-- One more phrase at a depth; nothing if it has no place where the reading stands. -/
def step (r : ScriptReading) (depth : Nat) (phrase : ScriptPhrase) : Option ScriptReading :=
  match r.place, depth, phrase with
  | .top, 1, .test keyword test none => some { r with place := .inside keyword test [] }
  | .top, 1, .test keyword test (some name) =>
    some ⟨r.clauses ++ [(keyword, .direct ⟨test, name⟩)], .top⟩
  | .top, 1, .answer name => some { r with place := .ended name }
  | .inside keyword test probes, 2, .test "if" node (some name) =>
    some { r with place := .inside keyword test (probes ++ [⟨node, name⟩]) }
  | .inside keyword test probes, 2, .answer name =>
    some ⟨r.clauses ++ [(keyword, .branch test probes name)], .top⟩
  | _, _, _ => none

/-- The reading after one more line, which says what it does after its tabs. -/
def readLine (r : ScriptReading) (line : String) : Option ScriptReading :=
  (ScriptPhrase.ofText? (line.toList.dropWhile fun c => c = '\t')).bind
    (r.step (line.toList.takeWhile fun c => c = '\t').length)

/-- The reading after more lines. -/
def readLines (r : ScriptReading) (lines : List String) : Option ScriptReading :=
  lines.foldlM readLine r

@[simp]
theorem readLines_nil (r : ScriptReading) : r.readLines [] = some r :=
  rfl

theorem readLines_append (r : ScriptReading) (lines lines' : List String) :
    r.readLines (lines ++ lines') =
      (r.readLines lines).bind fun r' => r'.readLines lines' :=
  List.foldlM_append

/-- A line that says something after some tabs. -/
theorem readLines_cons (r : ScriptReading) {depth : Nat} {tabs code : String}
    (htabs : tabs.toList = List.replicate depth '\t') {phrase : ScriptPhrase}
    (hphrase : ScriptPhrase.ofText? code.toList = some phrase) (lines : List String) :
    r.readLines ((tabs ++ code) :: lines) =
      (r.step depth phrase).bind fun r' => r'.readLines lines := by
  have hall : ∀ c ∈ List.replicate depth '\t', decide (c = '\t') = true := fun c hc =>
    decide_eq_true (List.eq_of_mem_replicate hc)
  have hcode : code.toList.takeWhile (fun c => c = '\t') = [] ∧
      code.toList.dropWhile (fun c => c = '\t') = code.toList := by
    have hhead := ScriptPhrase.head?_ne_tab_of_ofText? hphrase
    cases hchars : code.toList with
    | nil => exact ⟨rfl, rfl⟩
    | cons c cs =>
      have hne : ¬ decide (c = '\t') = true := by simpa [hchars] using hhead
      exact ⟨List.takeWhile_cons_of_neg hne, List.dropWhile_cons_of_neg hne⟩
  have hline : r.readLine (tabs ++ code) = r.step depth phrase := by
    rw [readLine, String.toList_append, htabs, List.takeWhile_append_of_pos hall,
      List.dropWhile_append_of_pos hall, hcode.1, hcode.2, hphrase, List.append_nil,
      List.length_replicate]
    rfl
  rw [readLines, List.foldlM_cons, hline]
  rfl

end ScriptReading

/-! ### What was written -/

/-- The names in a probe. -/
def ScriptProbe.names (probe : ScriptProbe) : List String :=
  [probe.test.className, probe.answer]

/-- The names in a clause. -/
def ScriptClause.names : ScriptClause → List String
  | .branch test probes answer => [test.className, answer] ++ probes.flatMap ScriptProbe.names
  | .direct probe => probe.names

namespace ScriptReading

section Written

variable (read : List (String × ScriptClause))

theorem toList_tab : "\t".toList = List.replicate 1 '\t' := by
  decide

theorem toList_tabs : "\t\t".toList = List.replicate 2 '\t' := by
  decide

/-- Probes are added to the branch that they stand in. -/
theorem readLines_probes {probes : List ScriptProbe}
    (hnames : ∀ c ∈ probes.flatMap ScriptProbe.names, Json.NamePattern.identifier.matches? c)
    (keyword : String) (test : NodeTest) (before : List ScriptProbe) :
    readLines ⟨read, .inside keyword test before⟩
        (probes.map fun p => "\t\t" ++ ClassifierScript.probeLine "if" p) =
      some ⟨read, .inside keyword test (before ++ probes)⟩ := by
  -- The probes before grow by each one that is read.
  induction probes generalizing before with
  | nil => simp
  | cons probe probes ih =>
    simp only [List.flatMap_cons, List.forall_mem_append, ScriptProbe.names,
      List.forall_mem_cons] at hnames
    obtain ⟨⟨htest, hanswer, -⟩, hothers⟩ := hnames
    have hrest := ih hothers (before ++ [probe])
    rw [List.append_assoc, List.singleton_append] at hrest
    rw [List.map_cons, readLines_cons _ toList_tabs
      (ScriptPhrase.ofText?_probeLine (.inl rfl) htest hanswer)]
    exact hrest

/-- The lines of a clause are read as the clause with the word that begins it, whatever was read
    before. -/
theorem readLines_clauseLines {keyword : String} (hkeyword : keyword = "if" ∨ keyword = "elif")
    {clause : ScriptClause}
    (hnames : ∀ c ∈ clause.names, Json.NamePattern.identifier.matches? c) :
    readLines ⟨read, .top⟩ (ClassifierScript.clauseLines keyword clause) =
      some ⟨read ++ [(keyword, clause)], .top⟩ := by
  cases clause with
  | branch test probes answer =>
    simp only [ScriptClause.names, List.forall_mem_append, List.forall_mem_cons] at hnames
    obtain ⟨⟨htest, hanswer, -⟩, hprobes⟩ := hnames
    have hhead := ScriptPhrase.ofText?_head hkeyword htest
    have hlines : ClassifierScript.clauseLines keyword (.branch test probes answer) =
        ("\t" ++ (keyword ++ " " ++ test.text ++ ":")) ::
          (probes.map (fun p => "\t\t" ++ ClassifierScript.probeLine "if" p) ++
            ["\t\t" ++ ("return " ++ Text.quoted answer)]) := by
      simp [ClassifierScript.clauseLines, ← String.append_assoc]
    have hinside : step ⟨read, .top⟩ 1 (.test keyword test none) =
        some ⟨read, .inside keyword test []⟩ := rfl
    rw [hlines, readLines_cons _ toList_tab hhead, hinside, Option.bind_some, readLines_append,
      readLines_probes read hprobes, Option.bind_some, List.nil_append,
      readLines_cons _ toList_tabs (ScriptPhrase.ofText?_answer hanswer)]
    rfl
  | direct probe =>
    simp only [ScriptClause.names, ScriptProbe.names, List.forall_mem_cons] at hnames
    obtain ⟨htest, hanswer, -⟩ := hnames
    rw [ClassifierScript.clauseLines, readLines_cons _ toList_tab
      (ScriptPhrase.ofText?_probeLine hkeyword htest hanswer)]
    rfl

theorem readLines_clauses {keyword : String} (hkeyword : keyword = "if" ∨ keyword = "elif")
    {clauses : List ScriptClause}
    (hnames : ∀ clause ∈ clauses, ∀ c ∈ clause.names, Json.NamePattern.identifier.matches? c) :
    readLines ⟨read, .top⟩ (clauses.flatMap (ClassifierScript.clauseLines keyword)) =
      some ⟨read ++ clauses.map fun clause => (keyword, clause), .top⟩ := by
  induction clauses generalizing read with
  | nil => simp
  | cons clause clauses ih =>
    rw [List.flatMap_cons, readLines_append,
      readLines_clauseLines read hkeyword (hnames clause List.mem_cons_self), Option.bind_some,
      ih _ fun clause' h' => hnames clause' (List.mem_cons_of_mem clause h'), List.append_assoc,
      List.map_cons, List.singleton_append]

end Written

/-- The words that begin the tests at the top of a function with that many of them: the first is
    `if`, and all others are `elif`. -/
def chainKeywords : Nat → List String
  | 0 => []
  | n + 1 => "if" :: List.replicate n "elif"

/-- The chain of clauses is read with its words. -/
theorem readLines_chainLines {clauses : List ScriptClause}
    (hnames : ∀ clause ∈ clauses, ∀ c ∈ clause.names, Json.NamePattern.identifier.matches? c) :
    ∃ read, readLines ⟨[], .top⟩ (ClassifierScript.chainLines clauses) = some ⟨read, .top⟩ ∧
      read.map Prod.fst = chainKeywords clauses.length ∧ read.map Prod.snd = clauses := by
  cases clauses with
  | nil => exact ⟨[], rfl, rfl, rfl⟩
  | cons first others =>
    refine ⟨("if", first) :: others.map fun clause => ("elif", clause), ?_, ?_, ?_⟩
    · rw [ClassifierScript.chainLines, readLines_append,
        readLines_clauseLines [] (.inl rfl) (hnames first List.mem_cons_self), Option.bind_some,
        readLines_clauses _ (.inr rfl) fun clause h => hnames clause (List.mem_cons_of_mem first h)]
      rfl
    · simp [chainKeywords, Function.comp_def]
    · simp [Function.comp_def]

end ScriptReading

/-! ### Reading the text -/

namespace ClassifierScript

/-- The root that the first line of the function names. -/
def rootIn? (entry : EntryPoints) (line : String) : Option String :=
  between? ("func " ++ entry.classify ++ "(node: ") ") -> String:" line.toList

/-- The script of some lines with the words that begin the tests at its top, which are those of the
    first function with the name of the entry point. -/
def ofLines? (entry : EntryPoints) : List String → Option (List String × ClassifierScript)
  | [] => none
  | line :: lines =>
    match rootIn? entry line with
    | none => ofLines? entry lines
    | some root =>
      match ScriptReading.readLines ⟨[], .top⟩ (lines.takeWhile fun l => l ≠ "") with
      | some ⟨read, .ended fallback⟩ =>
        some (read.map Prod.fst, ⟨root, read.map Prod.snd, fallback⟩)
      | _ => none

/-- The script of a text with the words that begin the tests at its top. -/
def ofText? (entry : EntryPoints) (text : String) : Option (List String × ClassifierScript) :=
  ofLines? entry (linesOf text)

variable {target : Target} {entry : EntryPoints} {s : ClassifierScript}

theorem ofLines?_append_of_other {before : List String}
    (h : ∀ line ∈ before, rootIn? entry line = none) (rest : List String) :
    ofLines? entry (before ++ rest) = ofLines? entry rest := by
  induction before with
  | nil => rfl
  | cons line before ih =>
    rw [List.cons_append, ofLines?, h line List.mem_cons_self]
    exact ih fun l hl => h l (List.mem_cons_of_mem line hl)

/-- The lines before the function. -/
def linesBefore (target : Target) (s : ClassifierScript) : List String :=
  ["extends " ++ s.root, "class_name " ++ target.scriptClassName, ""] ++
    target.noticeLines "#" ++ ["", "# Returns the most specific known type name of `node`."]

/-- The first line of the function. -/
def headLine (entry : EntryPoints) (s : ClassifierScript) : String :=
  "func " ++ entry.classify ++ "(node: " ++ s.root ++ ") -> String:"

theorem lines_eq : lines target entry s = linesBefore target s ++
    headLine entry s :: (chainLines s.clauses ++ ["\treturn " ++ Text.quoted s.fallback] ++
      "" :: analysisLines entry s) := by
  simp [lines, classifyLines, linesBefore, headLine]

theorem rootIn?_linesBefore : ∀ line ∈ linesBefore target s, rootIn? entry line = none := by
  intro line hline
  refine between?_eq_none ?_
  revert line
  simp [linesBefore, Target.noticeLines]

/-- The lines of the function end where a line has no text. -/
theorem takeWhile_bodyLines :
    (chainLines s.clauses ++ ["\treturn " ++ Text.quoted s.fallback] ++
        "" :: analysisLines entry s ++ [""]).takeWhile (fun l => l ≠ "") =
      chainLines s.clauses ++ ["\t" ++ ("return " ++ Text.quoted s.fallback)] := by
  have hbody : "" ∉ chainLines s.clauses ++ ["\treturn " ++ Text.quoted s.fallback] := by
    intro hl
    have htab : "".toList.head? = some '\t' := by
      rcases List.mem_append.1 hl with hl | hl
      · exact head?_of_mem_chainLines hl
      · rw [List.mem_singleton.1 hl]
        simp
    simp at htab
  rw [List.append_assoc, List.cons_append, takeWhile_ne_append_cons hbody, ← String.append_assoc]
  rfl

/-- A script is read from its text as it is, and the words of its chain are `if` and then `elif`. -/
theorem ofText?_fileOfLines (hlines : ∀ line ∈ lines target entry s, Unbroken line)
    (hnames : ∀ clause ∈ s.clauses, ∀ c ∈ clause.names, Json.NamePattern.identifier.matches? c)
    (hfallback : Json.NamePattern.identifier.matches? s.fallback) :
    ofText? entry (Text.fileOfLines (lines target entry s)) =
      some (ScriptReading.chainKeywords s.clauses.length, s) := by
  have hread : linesOf (Text.fileOfLines (lines target entry s)) =
      lines target entry s ++ [""] := by
    rw [linesOf_fileOfLines (by simp [lines]), flatMap_linesOf hlines]
  have hroot : rootIn? entry (headLine entry s) = some s.root :=
    between?_eq_some_iff.2 (by simp [headLine])
  obtain ⟨read, hchain, hkeywords, hclauses⟩ := ScriptReading.readLines_chainLines hnames
  have hfunction : ScriptReading.readLines ⟨[], .top⟩ (chainLines s.clauses ++
      ["\t" ++ ("return " ++ Text.quoted s.fallback)]) = some ⟨read, .ended s.fallback⟩ := by
    rw [ScriptReading.readLines_append, hchain, Option.bind_some, ScriptReading.readLines_cons _
      ScriptReading.toList_tab (ScriptPhrase.ofText?_answer hfallback)]
    rfl
  rw [ofText?, hread, lines_eq, List.append_assoc, ofLines?_append_of_other rootIn?_linesBefore,
    List.cons_append, ofLines?, hroot]
  simp only [takeWhile_bodyLines, hfunction, hkeywords, hclauses]

theorem unbroken_text {test : NodeTest} (h : Unbroken test.className) : Unbroken test.text := by
  cases test with
  | byClass c =>
    have hc : Unbroken c := h
    dsimp only [NodeTest.text]
    rw [unbroken_append]
    exact ⟨by simp [Unbroken], hc⟩
  | byName c =>
    dsimp only [NodeTest.text]
    rw [unbroken_append, unbroken_append]
    exact ⟨⟨by simp [Unbroken], unbroken_quoted c⟩, by simp [Unbroken]⟩

theorem unbroken_probeLine {keyword : String} (hkeyword : Unbroken keyword) {probe : ScriptProbe}
    (h : Unbroken probe.test.className) : Unbroken (probeLine keyword probe) := by
  have hbetween : Unbroken " " ∧ Unbroken ": return " := by simp [Unbroken]
  simp [probeLine, hkeyword, hbetween, unbroken_text h, unbroken_quoted]

theorem unbroken_clauseLines {keyword : String} (hkeyword : Unbroken keyword)
    {clause : ScriptClause} (hnames : ∀ c ∈ clause.names, Unbroken c) :
    ∀ line ∈ clauseLines keyword clause, Unbroken line := by
  have htabs : Unbroken "\t" ∧ Unbroken "\t\t" := by simp [Unbroken]
  cases clause with
  | branch test probes answer =>
    have hwords : Unbroken " " ∧ Unbroken ":" ∧ Unbroken "if" ∧ Unbroken "\t\treturn " := by
      simp [Unbroken]
    intro line hline
    simp only [clauseLines, List.mem_append, List.mem_singleton, List.mem_map] at hline
    rcases hline with (rfl | ⟨probe, hprobe, rfl⟩) | rfl
    · have htest : Unbroken test.className := hnames _ (by simp [ScriptClause.names])
      simp [htabs, hkeyword, hwords, unbroken_text htest]
    · have hprobes : probe.test.className ∈ probes.flatMap ScriptProbe.names :=
        List.mem_flatMap.2 ⟨probe, hprobe, List.mem_cons_self⟩
      have htest : Unbroken probe.test.className := hnames _ (List.mem_append_right _ hprobes)
      simp [htabs, unbroken_probeLine hwords.2.2.1 htest]
    · simp [hwords, unbroken_quoted]
  | direct probe =>
    have htest : Unbroken probe.test.className := hnames _ List.mem_cons_self
    simp [clauseLines, htabs, unbroken_probeLine hkeyword htest]

theorem unbroken_chainLines {clauses : List ScriptClause}
    (hnames : ∀ clause ∈ clauses, ∀ c ∈ clause.names, Unbroken c) :
    ∀ line ∈ chainLines clauses, Unbroken line := by
  have hkeywords : Unbroken "if" ∧ Unbroken "elif" := by simp [Unbroken]
  cases clauses with
  | nil => simp [chainLines]
  | cons first others =>
    intro line hline
    rcases List.mem_append.1 hline with hline | hline
    · exact unbroken_clauseLines hkeywords.1 (hnames first List.mem_cons_self) line hline
    · obtain ⟨clause, hclause, hline⟩ := List.mem_flatMap.1 hline
      exact unbroken_clauseLines hkeywords.2 (hnames clause (List.mem_cons_of_mem first hclause))
        line hline

/-- The lines of a script are unbroken if its names are. -/
theorem unbroken_lines (htarget : ∀ s ∈ target.settings, Unbroken s)
    (hentry : ∀ name ∈ entry.names, Unbroken name) (hroot : Unbroken s.root)
    (hnames : ∀ clause ∈ s.clauses, ∀ c ∈ clause.names, Unbroken c) :
    ∀ line ∈ lines target entry s, Unbroken line := by
  have hbefore : ∀ line ∈ linesBefore target s, Unbroken line := by
    have hclass : Unbroken target.scriptClassName := htarget _ (by simp [Target.settings])
    have hnotice := Target.unbroken_noticeLines htarget (show Unbroken "#" by decide)
    simp only [linesBefore, List.forall_mem_append, List.forall_mem_cons, unbroken_append, hroot,
      hclass]
    exact ⟨⟨by simp [Unbroken], hnotice⟩, by simp [Unbroken]⟩
  simp only [EntryPoints.names, List.forall_mem_cons] at hentry
  obtain ⟨-, -, -, hclassify, hsubtree, hinitial, -⟩ := hentry
  have hhead : Unbroken (headLine entry s) := by
    simp only [headLine, unbroken_append, hroot, hclassify]
    simp [Unbroken]
  have hanswer : Unbroken ("\treturn " ++ Text.quoted s.fallback) :=
    unbroken_append.2 ⟨by simp [Unbroken], unbroken_quoted s.fallback⟩
  have hanalysis : ∀ line ∈ "" :: analysisLines entry s, Unbroken line := by
    simp only [analysisLines, List.forall_mem_cons, unbroken_append, hroot, hclassify, hsubtree,
      hinitial]
    simp [Unbroken]
  rw [lines_eq]
  refine List.forall_mem_append.2 ⟨hbefore, List.forall_mem_cons.2 ⟨hhead, ?_⟩⟩
  exact List.forall_mem_append.2 ⟨List.forall_mem_append.2
    ⟨unbroken_chainLines hnames, List.forall_mem_singleton.2 hanswer⟩, hanalysis⟩

end ClassifierScript

/-! ### The plan -/

/-- The class of a probe, if the class that it tests for is the one that it answers. -/
def ScriptProbe.className? (probe : ScriptProbe) : Option String :=
  if probe.test.className = probe.answer then some probe.answer else none

namespace ScriptClause

/-- Whether a clause is a branch. -/
def isBranch : ScriptClause → Bool
  | .branch .. => true
  | .direct _ => false

/-- The branch of a clause, if the class of its head is its last answer. -/
def branch? : ScriptClause → Option TestBranch
  | .branch test probes answer =>
    if test.className = answer then
      (probes.mapM ScriptProbe.className?).map fun classNames => ⟨answer, classNames⟩
    else none
  | .direct _ => none

/-- The class that a clause outside of branches tests for. -/
def direct? : ScriptClause → Option String
  | .branch .. => none
  | .direct probe => probe.className?

end ScriptClause

namespace ClassifierScript

/-- The plan of a script: branches come first, and direct tests after them. -/
def plan? (s : ClassifierScript) : Option TestPlan :=
  match (s.clauses.takeWhile ScriptClause.isBranch).mapM ScriptClause.branch?,
    (s.clauses.dropWhile ScriptClause.isBranch).mapM ScriptClause.direct? with
  | some branches, some direct => some ⟨branches, direct, s.fallback⟩
  | _, _ => none

theorem mapM_map_of_inverse {α β : Type} {f : α → β} {g : β → Option α} (h : ∀ x, g (f x) = some x)
    (l : List α) : (l.map f).mapM g = some l := by
  induction l with
  | nil => rfl
  | cons x l ih => simp [h, ih]

theorem className_ofClass (gates : Gates) (c : String) :
    (NodeTest.ofClass gates c).className = c := by
  rw [NodeTest.ofClass]
  split <;> rfl

/-- A script says which plan it was made from. -/
theorem plan?_ofTaxonomy (t : Taxonomy) :
    (ofTaxonomy t).plan? = some (TestPlan.ofTaxonomy t) := by
  have hprobe (c : String) : (probeOf t.gates c).className? = some c :=
    if_pos (className_ofClass t.gates c)
  have hbranch (b : TestBranch) : (branchClause t.gates b).branch? = some b := by
    have hroot : (NodeTest.byClass b.root).className = b.root := rfl
    rw [branchClause, ScriptClause.branch?, if_pos hroot, mapM_map_of_inverse hprobe]
    rfl
  have hdirect (c : String) : (ScriptClause.direct (probeOf t.gates c)).direct? = some c :=
    hprobe c
  have hbranches : ∀ clause ∈ (TestPlan.ofTaxonomy t).branches.map (branchClause t.gates),
      clause.isBranch = true := by
    simp [branchClause, ScriptClause.isBranch]
  -- The first clause that is no branch is a direct test, or there is none.
  have hothers (classNames : List String) :
      (classNames.map fun c => ScriptClause.direct (probeOf t.gates c)).takeWhile
        ScriptClause.isBranch = [] ∧
      (classNames.map fun c => ScriptClause.direct (probeOf t.gates c)).dropWhile
        ScriptClause.isBranch =
          classNames.map fun c => ScriptClause.direct (probeOf t.gates c) := by
    cases classNames <;> simp [ScriptClause.isBranch]
  rw [plan?, ofTaxonomy]
  simp only [List.takeWhile_append_of_pos hbranches, List.dropWhile_append_of_pos hbranches,
    hothers, List.append_nil, mapM_map_of_inverse hbranch, mapM_map_of_inverse hdirect]

end ClassifierScript

end NodeTagging
