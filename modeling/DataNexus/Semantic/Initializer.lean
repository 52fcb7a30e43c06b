/-
  DataNexus.Semantic.Initializer — what a question resolves to
  (`semantic_api/initializer.py`): the terms it mentions, the time windows it asks for, and
  what it is refused for.

  A text is its characters. What Python knows of characters is a parameter
  (`CharTables`): the case folding of each, and which ones words and blanks are made of;
  so are the zone data (`TimeLibrary`). Of a concept or a member only what a mention is
  looked up by is kept. Left out: the semantic context, the response's status, and severity
  and stage, which are the same everywhere.
-/

import DataNexus.Lib.Dict
import DataNexus.Lib.Greedy
import DataNexus.Lib.Pattern
import DataNexus.Semantic.Validator

namespace DataNexus.Semantic

open Lib Lib.Pattern

abbrev Text := List Char

/-! ## Characters -/

/-- The CJK unified ideographs, which have no case. -/
def ideograph (c : Char) : Bool := 0x4E00 ≤ c.toNat && c.toNat ≤ 0x9FFF

/-- `str.casefold` of a character, `\w` and `\s`. -/
structure CharTables where
  fold : Char → Text
  word : Char → Bool
  space : Char → Bool
  folds : ∀ c, fold c ≠ []
  idempotent : ∀ c, ∀ d ∈ fold c, fold d = [d]
  caseless : ∀ c d, ideograph d = true → (d ∈ fold c ↔ c = d)

/-- Tables for texts without capitals: the sharp s is folded to two letters. -/
def sharpS : CharTables where
  fold c := if c = 'ß' then ['s', 's'] else [c]
  word c := c.isAlphanum || c = '_' || 0x80 ≤ c.toNat
  space c := c = ' ' || c = '\n'
  folds c := by split <;> simp
  idempotent c d hd := by
    split at hd
    · have hs : d = 's' := by simpa using hd
      rw [hs]
      rfl
    · rename_i hc
      rw [List.mem_singleton.mp hd, if_neg hc]
  caseless c d hd := by
    split
    · rename_i hc
      subst hc
      constructor
      · intro hmem
        have hs : d = 's' := by simpa using hmem
        rw [hs] at hd
        exact absurd hd (by decide)
      · rintro rfl
        exact absurd hd (by decide)
    · rw [List.mem_singleton, eq_comm]

section

variable (tables : CharTables)

def casefold (text : Text) : Text := text.flatMap tables.fold

/-- What `re.IGNORECASE` takes for a lower case ASCII letter. -/
def ignoringCase (letter c : Char) : Bool :=
  c = letter || ('A' ≤ c && c ≤ 'Z' && c.toLower = letter) || (letter = 'i' && (c.toNat = 0x130 || c.toNat = 0x131)) ||
    (letter = 's' && c.toNat = 0x17F) || (letter = 'k' && c.toNat = 0x212A)

/-! ## Mentions -/

inductive MemberResolutionMode where
  | exact | exactAndSynonym
  deriving DecidableEq

/-- Where a form that is mentioned comes from. -/
inductive FormSource where
  | machineId | label | synonym
  deriving DecidableEq

/-- `_source_rank`. -/
def FormSource.rank : FormSource → Nat
  | machineId => 0
  | label => 1
  | synonym => 2

structure ResolutionCandidate where
  sourceText : String
  kind : ResolvedTermKind
  machineId : String
  source : FormSource
  deriving DecidableEq

structure MemberMatch where
  candidate : ResolutionCandidate
  start : Nat
  stop : Nat
  deriving DecidableEq

/-- What has a machine id, a label and synonyms. -/
structure Named where
  id : String
  label : String
  synonyms : List String := []
  deriving DecidableEq

structure NamedField extends Named where
  members : List Named := []
  deriving DecidableEq

structure Vocabulary where
  entities : List Named := []
  fields : List NamedField := []
  metrics : List Named := []
  deriving DecidableEq

def mentionPattern (folded : Text) : Pattern Char :=
  if folded.any Char.isAlphanum then seqs [notAfter tables.word, literal folded, notBefore tables.word] else literal folded

/-- `_mention_spans`. -/
def mentionSpans (question candidate : Text) : List (Nat × Nat) :=
  finditer (mentionPattern tables (casefold tables candidate)) question

/-- The forms of `_match_form_spans`. -/
def Named.forms (named : Named) (mode : MemberResolutionMode) : List (String × FormSource) :=
  [(named.id, .machineId), (named.label, .label)] ++
    match mode with
    | .exact => []
    | .exactAndSynonym => named.synonyms.map (·, .synonym)

/-- `_match_form_spans`, as matches of a kind. -/
def formMatches (question : Text) (kind : ResolvedTermKind) (mode : MemberResolutionMode) (named : Named) :
    List MemberMatch :=
  (named.forms mode).flatMap fun (text, source) =>
    if text = "" then []
    else
      (mentionSpans tables question text.toList).map fun (start, stop) =>
        ⟨⟨text, kind, named.id, source⟩, start, stop⟩

/-! ## Preferred matches -/

structure RankedSpan where
  start : Nat
  stop : Nat
  rank : Nat
  preferred : List MemberMatch
  deriving DecidableEq

namespace RankedSpan

def length (span : RankedSpan) : Nat := span.stop - span.start

/-- By length, the longest first, then source rank, then position. -/
def precedes (a b : RankedSpan) : Bool :=
  b.length < a.length || (a.length = b.length && (a.rank < b.rank || (a.rank = b.rank && a.start ≤ b.start)))

def overlaps (a b : RankedSpan) : Bool := a.start < b.stop && b.start < a.stop

end RankedSpan

def bySpan (found : List MemberMatch) : Dict (Nat × Nat) (List MemberMatch) :=
  found.foldl (fun spans m => spans.set (m.start, m.stop) ((spans.get? (m.start, m.stop)).getD [] ++ [m])) Dict.empty

def bestRank (found : List MemberMatch) : Nat := (found.map fun m => m.candidate.source.rank).min?.getD 0

def rankedSpan (entry : (Nat × Nat) × List MemberMatch) : RankedSpan :=
  { start := entry.1.1
    stop := entry.1.2
    rank := bestRank entry.2
    preferred := entry.2.filter fun m => m.candidate.source.rank = bestRank entry.2 }

def rankedSpans (found : List MemberMatch) : List RankedSpan :=
  ((bySpan found).entries.map rankedSpan).insertionSort fun a b => a.precedes b = true

/-- The spans that `_preferred_member_matches` chooses. -/
def chosenSpans (found : List MemberMatch) : List RankedSpan :=
  (Greedy.select RankedSpan.overlaps (rankedSpans found)).insertionSort fun a b => a.start ≤ b.start

def preferredMemberMatches (found : List MemberMatch) : List (List MemberMatch) := (chosenSpans found).map (·.preferred)

/-! ## Negation -/

def keyword (text : String) : Pattern Char := literalBy ignoringCase text.toList

def phrase (text : String) : Pattern Char := literal text.toList

def phrases (texts : List String) : Pattern Char := oneOf (texts.map phrase)

def among (texts : String) : Pattern Char := .one fun c => c ∈ texts.toList

def wordBoundary : Pattern Char := boundary tables.word

def blank : Pattern Char := .one tables.space

/-- `^`. -/
def textStart : Pattern Char := .assert fun _ pos => pos = 0

/-- `$`: before a line feed that ends the text too. -/
def textEnd : Pattern Char := .assert fun text pos => pos = text.length || (pos + 1 = text.length && text[pos]? = some '\n')

/-- `[^\n;.!?]{0,60}`. -/
def sameSentence : Pattern Char := .repeated (some 60) (.one fun c => !(c ∈ ['\n', ';', '.', '!', '?']))

/-- `\b(?:all|every)\b[^\n;.!?]{0,60}`. -/
def quantified : Pattern Char :=
  seqs [wordBoundary tables, oneOf [keyword "all", keyword "every"], wordBoundary tables, sameSentence]

def sharedClauseBoundary : Pattern Char :=
  .alt
    (seqs [wordBoundary tables,
      oneOf (["however", "instead", "whereas", "then", "when", "where", "if", "although", "though", "while"].map keyword),
      wordBoundary tables])
    (phrases ["但是", "但", "不过", "然而", "然后", "如果", "虽然"])

def sharedPunctuation : List Char := [';', '.', '!', '?', '\n', '\r', '。', '！', '？', '；']

def butWord : Pattern Char := seqs [wordBoundary tables, keyword "but", wordBoundary tables]

/-- The ends of clauses in the text before a mention. -/
def prefixBoundaries (before : Text) : List Nat :=
  let quantifiedBut :=
    search (seqs [quantified tables, wordBoundary tables, keyword "but", star (blank tables), textEnd]) before
  let punctuation := (finditer (.one fun c => c ∈ [',', '，'] ++ sharedPunctuation) before).filter fun span =>
    match quantifiedBut with
    | none => true
    | some quantifiedBut => span.1 < quantifiedBut.1
  let clauses := finditer (sharedClauseBoundary tables) before
  let buts := (finditer (butWord tables) before).filter fun span =>
    !found (seqs [quantified tables, textEnd]) (before.take span.1)
  (punctuation ++ clauses ++ buts).map (·.2)

/-- Where clauses start in the text after a mention. -/
def suffixBoundaries (after : Text) : List Nat :=
  (finditer (.one fun c => c ∈ sharedPunctuation) after ++ finditer (sharedClauseBoundary tables) after ++
    finditer (butWord tables) after).map (·.1)

/-- `_bounded_negation_context`. -/
def boundedNegationContext (question : Text) (mentionStart mentionEnd : Nat) : Text × Text :=
  let before := slice question (mentionStart - 80) mentionStart
  let after := slice question mentionEnd (mentionEnd + 80)
  (before.drop ((prefixBoundaries tables before).max?.getD 0),
    after.take ((suffixBoundaries tables after).min?.getD after.length))

/-- `_normalize_negation_phrase`. -/
def normalizeNegationPhrase (value : Text) : Text :=
  let normalized := (casefold tables value).map fun c => if c = Char.ofNat 0x2018 ∨ c = Char.ofNat 0x2019 then Char.ofNat 39 else c
  let expanded := [("can't", "cannot"), ("won't", "will not"), ("shan't", "shall not")].foldl
    (fun text (contraction, full) =>
      sub (seqs [wordBoundary tables, phrase contraction, wordBoundary tables]) (fun _ => full.toList) text) normalized
  let negated := seqs [wordBoundary tables, plus (.one fun c => 'a' ≤ c && c ≤ 'z'), phrase "n't", wordBoundary tables]
  sub negated (fun text => text.dropLast.dropLast.dropLast ++ " not".toList) expanded

def negationWords : List String := ["not", "no", "without", "except", "unless", "never", "neither", "nor", "cannot"]

/-- `(?:exclud(?:e|es|ed|ing)|exclusion|omit(?:s|ted|ting)?|omission)`. -/
def exclusionToken : Pattern Char :=
  oneOf [seqs [phrase "exclud", phrases ["e", "es", "ed", "ing"]], phrase "exclusion",
    seqs [phrase "omit", optional (phrases ["s", "ted", "ting"])], phrase "omission"]

def englishNegation : Pattern Char :=
  seqs [wordBoundary tables,
    oneOf [seqs [phrase "other", plus (blank tables), phrase "than"], seqs [phrase "left", plus (blank tables), phrase "out"],
      seqs [phrases ["all", "every"], wordBoundary tables, sameSentence, wordBoundary tables, phrase "but"]],
    wordBoundary tables]

def inclusionVerbs : Pattern Char := phrases ["包括", "包含", "使用", "显示", "展示", "纳入", "选择"]

def chineseNegation : Pattern Char :=
  let beside := Pattern.alt (blank tables) (among ",，:：")
  oneOf [phrases ["排除", "除外", "除了", "除非", "以外", "之外", "不要", "无需", "无须", "不含"],
    seqs [phrase "不", optional (among "应该能可会"), inclusionVerbs],
    seqs [phrase "未", optional (phrase "被"), inclusionVerbs],
    seqs [.alt textStart beside, phrase "非", .alt textEnd beside]]

/-- `_contains_negation_marker`. -/
def containsNegationMarker (value : Text) : Bool :=
  let normalized := normalizeNegationPhrase tables value
  let englishTokens := (finditer (plus (.one fun c => 'a' ≤ c && c ≤ 'z')) normalized).map fun span =>
    slice normalized span.1 span.2
  englishTokens.any (fun token => token ∈ negationWords.map String.toList) ||
    englishTokens.any (fullmatch exclusionToken) ||
    found (englishNegation tables) normalized || found (chineseNegation tables) normalized

/-- `_has_spanning_exclusion`. -/
def hasSpanningExclusion (before after : Text) : Bool :=
  let descriptor := phrases ["地区", "区域", "大区", "省", "市", "产品", "客户", "指标", "度量", "字段", "实体", "时间", "期间",
    "年度", "年份", "月份", "季度"]
  let outside := seqs [star (blank tables), .repeated (some 2) (.seq (optional (phrase "的")) descriptor),
    star (blank tables), phrases ["外", "以外", "之外"]]
  found (seqs [phrase "除", star (blank tables), textEnd]) (normalizeNegationPhrase tables before) &&
    (matchAt outside (normalizeNegationPhrase tables after) 0).isSome

/-- `_is_negated`. -/
def isNegated (question : Text) (mentionStart mentionEnd : Nat) : Bool :=
  let (before, after) := boundedNegationContext tables question mentionStart mentionEnd
  containsNegationMarker tables before || containsNegationMarker tables after || hasSpanningExclusion tables before after

/-! ## Terms -/

inductive ResolutionSource where
  | form (source : FormSource)
  | relativeTime
  | evaluationClock
  deriving DecidableEq

structure ResolvedMention where
  sourceText : String
  kind : ResolvedTermKind
  machineId : String
  source : ResolutionSource
  deriving DecidableEq

def ResolvedTermKind.value : ResolvedTermKind → String
  | entity => "entity"
  | field => "field"
  | metric => "metric"
  | member => "member"
  | timeWindow => "time_window"

def mention (candidate : ResolutionCandidate) : String := String.ofList (casefold tables candidate.sourceText.toList)

def negatedConcept (candidate : ResolutionCandidate) : Diagnostic :=
  { code := "NEGATED_CONCEPT_UNSUPPORTED"
    message := "Negative entity, field, and metric constraints are not supported in this version."
    path := "question"
    details := [("mention", .text (mention tables candidate)), ("kind", .text candidate.kind.value),
      ("concept_id", .text candidate.machineId)] }

def negatedMember (mention : String) : Diagnostic :=
  { code := "NEGATED_MEMBER_UNSUPPORTED"
    message := "Negative member constraints are not supported in this version."
    path := "question"
    details := [("mention", .text mention)] }

def ambiguousMember (mention : String) (machineIds : List String) : Diagnostic :=
  { code := "AMBIGUOUS_MEMBER"
    message := "A member mention matches multiple governed members."
    path := "question"
    details := [("mention", .text mention), ("candidate_count", .int machineIds.length),
      ("candidates", .text (String.intercalate "," machineIds))] }

/-- What was found so far: candidates, diagnostics, and the concepts reported as negated. -/
structure Resolution where
  candidates : List ResolutionCandidate := []
  diagnostics : List Diagnostic := []
  reported : List (ResolvedTermKind × String) := []
  deriving DecidableEq

def conceptMatches (vocabulary : Vocabulary) (question : Text) (mode : MemberResolutionMode) : List MemberMatch :=
  vocabulary.entities.flatMap (formMatches tables question .entity mode) ++
    vocabulary.fields.flatMap (fun field => formMatches tables question .field mode field.toNamed) ++
    vocabulary.metrics.flatMap (formMatches tables question .metric mode)

def memberMatches (vocabulary : Vocabulary) (question : Text) (mode : MemberResolutionMode) : List MemberMatch :=
  vocabulary.fields.flatMap fun field => field.members.flatMap (formMatches tables question .member mode)

def resolveConcept (question : Text) (s : Resolution) (m : MemberMatch) : Resolution :=
  if isNegated tables question m.start m.stop then
    let key := (m.candidate.kind, m.candidate.machineId)
    if key ∈ s.reported then s
    else { s with diagnostics := s.diagnostics ++ [negatedConcept tables m.candidate], reported := s.reported ++ [key] }
  else { s with candidates := s.candidates ++ [m.candidate] }

def machineIds (found : List MemberMatch) : List String :=
  (found.map fun m => m.candidate.machineId).dedup.insertionSort (· ≤ ·)

/-- One group of matches; it is never empty. -/
def resolveMember (question : Text) (s : Resolution) : List MemberMatch → Resolution
  | [] => s
  | m :: rest =>
    if isNegated tables question m.start m.stop then
      { s with diagnostics := s.diagnostics ++ [negatedMember (mention tables m.candidate)] }
    else if (machineIds (m :: rest)).length > 1 then
      { s with diagnostics := s.diagnostics ++ [ambiguousMember (mention tables m.candidate) (machineIds (m :: rest))] }
    else { s with candidates := s.candidates ++ [m.candidate] }

def preferred (unique : Dict (ResolvedTermKind × String) ResolutionCandidate) (candidate : ResolutionCandidate) :
    Dict (ResolvedTermKind × String) ResolutionCandidate :=
  match unique.get? (candidate.kind, candidate.machineId) with
  | none => unique.set (candidate.kind, candidate.machineId) candidate
  | some existing =>
    if candidate.source.rank < existing.source.rank then unique.set (candidate.kind, candidate.machineId) candidate
    else unique

def resolved (candidates : List ResolutionCandidate) : List ResolvedMention :=
  (((candidates.foldl preferred Dict.empty).entries.map Prod.snd).insertionSort fun a b =>
    a.kind.value < b.kind.value ∨ (a.kind.value = b.kind.value ∧ a.machineId ≤ b.machineId)).map fun item =>
      ⟨item.sourceText, item.kind, item.machineId, .form item.source⟩

/-- What `_resolve_terms` found, of the text it casefolds. -/
def resolution (vocabulary : Vocabulary) (question : Text) (mode : MemberResolutionMode) : Resolution :=
  let folded := casefold tables question
  let concepts := (conceptMatches tables vocabulary folded mode).foldl (resolveConcept tables folded) {}
  (preferredMemberMatches (memberMatches tables vocabulary folded mode)).foldl (resolveMember tables folded) concepts

/-- `_resolve_terms`. -/
def resolveTerms (vocabulary : Vocabulary) (question : Text) (mode : MemberResolutionMode) :
    List ResolvedMention × List Diagnostic :=
  let found := resolution tables vocabulary question mode
  (resolved found.candidates, found.diagnostics)

end

/-! ## Time windows -/

structure LocalClock where
  year : Int
  month : Nat
  deriving DecidableEq

/-- `zoneinfo` and `datetime`. -/
structure TimeLibrary where
  Zone : Type
  zoneInfo : String → Option Zone
  astimezone : Zone → DateTime → Option LocalClock
  midnight : Zone → Int → Nat → DateTime
  isoformat : DateTime → String

section

variable (tables : CharTables) (time : TimeLibrary)

/-- `_at_midnight`, of the first of a month. -/
def atMidnight (zone : time.Zone) (year : Int) (month : Nat) : Option DateTime :=
  if 1 ≤ year ∧ year ≤ 9999 then some (time.midnight zone year month) else none

/-- The bounds of a period, as years and months. -/
structure Period where
  startYear : Int
  startMonth : Nat
  endYear : Int
  endMonth : Nat
  grain : Grain
  deriving DecidableEq

def thisYear (clock : LocalClock) : Period := ⟨clock.year, 1, clock.year + 1, 1, .year⟩

def previousYear (clock : LocalClock) : Period := ⟨clock.year - 1, 1, clock.year, 1, .year⟩

def previousQuarter (clock : LocalClock) : Period :=
  let currentStartMonth := (clock.month - 1) / 3 * 3 + 1
  if currentStartMonth = 1 then ⟨clock.year - 1, 10, clock.year, currentStartMonth, .quarter⟩
  else ⟨clock.year, currentStartMonth - 3, clock.year, currentStartMonth, .quarter⟩

def thisMonth (clock : LocalClock) : Period :=
  if clock.month = 12 then ⟨clock.year, clock.month, clock.year + 1, 1, .month⟩
  else ⟨clock.year, clock.month, clock.year, clock.month + 1, .month⟩

def previousMonth (clock : LocalClock) : Period :=
  if clock.month = 1 then ⟨clock.year - 1, 12, clock.year, clock.month, .month⟩
  else ⟨clock.year, clock.month - 1, clock.year, clock.month, .month⟩

/-- A period as a window; none where it is not within `datetime`'s years. -/
def window (zone : time.Zone) (sourceText : String) (period : Period) : Option TimeWindow := do
  let start ← atMidnight time zone period.startYear period.startMonth
  let endExclusive ← atMidnight time zone period.endYear period.endMonth
  return { sourceText, start, endExclusive, grain := period.grain }

def recognizers : List (String × (LocalClock → Period)) :=
  [("上季度", previousQuarter), ("今年", thisYear), ("去年", previousYear), ("本月", thisMonth), ("上月", previousMonth)]

/-- The `mention_spans` of a phrase. -/
def timeMentions (question : Text) (words : String) : List (Nat × Nat) := finditer (phrase words) question

/-- What `_is_negated` is asked about a phrase: a text and a span in it, for each mention. -/
def negationQueries (question : Text) (words : String) : List (Text × Nat × Nat) :=
  (timeMentions question words).map fun span => (casefold tables question, span)

def invalidClock (message : String) : Diagnostic :=
  { code := "INVALID_EVALUATION_CLOCK", message, path := "evaluation_clock" }

def negatedTime (words : String) : Diagnostic :=
  { code := "NEGATED_TIME_UNSUPPORTED"
    message := "Negative relative-time constraints are not supported."
    path := "question"
    details := [("mention", .text words)] }

/-- A recognised phrase: nothing where it is not mentioned. -/
def recognize (question : Text) (zone : time.Zone) (clock : LocalClock) (recognizer : String × (LocalClock → Period)) :
    List TimeWindow × List Diagnostic :=
  let mentions := timeMentions question recognizer.1
  if mentions = [] then ([], [])
  else if (negationQueries tables question recognizer.1).any fun query => isNegated tables query.1 query.2.1 query.2.2 then
    ([], [negatedTime recognizer.1])
  else
    match window time zone recognizer.1 (recognizer.2 clock) with
    | some window => ([window], [])
    | none => ([], [invalidClock "The requested time window is outside the supported datetime range."])

/-- `_normalize_time`. -/
def normalizeTime (question : Text) (clock : DateTime) (timezone : String) : List TimeWindow × List Diagnostic :=
  match time.zoneInfo timezone with
  | none =>
    ([], [{ code := "INVALID_TIMEZONE", message := "The evaluation timezone is not a known IANA timezone."
            path := "evaluation_timezone" }])
  | some zone =>
    match time.astimezone zone clock with
    | none => ([], [invalidClock "The evaluation clock cannot be represented in the requested timezone."])
    | some clock =>
      let found := recognizers.map (recognize tables time question zone clock)
      (found.flatMap Prod.fst, found.flatMap Prod.snd)

/-- `_monthly_comparison_windows`. -/
def monthlyComparisonWindows (clock : DateTime) (timezone : String) : List TimeWindow × List Diagnostic :=
  let windows : Option (List TimeWindow) := do
    let zone ← time.zoneInfo timezone
    let clock ← time.astimezone zone clock
    let current ← window time zone "evaluation_clock.current_month" (thisMonth clock)
    let previous ← window time zone "evaluation_clock.previous_month" (previousMonth clock)
    return [current, previous]
  match windows with
  | some windows => (windows, [])
  | none => ([], [invalidClock "Monthly comparison periods cannot be derived from the evaluation clock."])

structure InitializeRequest where
  question : Text
  evaluationClock : DateTime
  evaluationTimezone : String
  memberResolutionMode : MemberResolutionMode
  compilationMode : CompilationMode
  deriving DecidableEq

structure InitializeResponse where
  resolvedTerms : List ResolvedMention
  timeWindows : List TimeWindow
  diagnostics : List Diagnostic
  deriving DecidableEq

def monthlyExplicitTime : Diagnostic :=
  { code := "MONTHLY_EXPLICIT_TIME_UNSUPPORTED"
    message := "Monthly comparison derives current and previous month periods from the evaluation clock and does not accept another time window."
    path := "question" }

def multipleTimeWindows (count : Nat) : Diagnostic :=
  { code := "MULTIPLE_TIME_WINDOWS_UNSUPPORTED"
    message := "This compiler version supports one relative time window per request."
    path := "question"
    details := [("window_count", .int count)] }

/-- The windows a request gets, and what its mode adds to the diagnostics. -/
def requestedWindows (request : InitializeRequest) (windows : List TimeWindow) (timeDiagnostics : List Diagnostic) :
    List TimeWindow × List Diagnostic :=
  match request.compilationMode with
  | .monthlyRegionalComparison =>
    if windows ≠ [] then (windows, [monthlyExplicitTime])
    else if timeDiagnostics = [] then monthlyComparisonWindows time request.evaluationClock request.evaluationTimezone
    else (windows, [])
  | .regionalQuarterlyProfit => (windows, if windows.length > 1 then [multipleTimeWindows windows.length] else [])

def windowTerm (window : TimeWindow) : ResolvedMention :=
  { sourceText := window.sourceText
    kind := .timeWindow
    machineId := "time:" ++ time.isoformat window.start ++ "/" ++ time.isoformat window.endExclusive
    source := if "evaluation_clock.".toList.isPrefixOf window.sourceText.toList then .evaluationClock else .relativeTime }

/-- The response to a request. -/
def initializeRequest (vocabulary : Vocabulary) (request : InitializeRequest) : InitializeResponse :=
  let (terms, diagnostics) := resolveTerms tables vocabulary request.question request.memberResolutionMode
  let (windows, timeDiagnostics) :=
    normalizeTime tables time request.question request.evaluationClock request.evaluationTimezone
  let (windows, modeDiagnostics) := requestedWindows time request windows timeDiagnostics
  { resolvedTerms := terms ++ windows.map (windowTerm time)
    timeWindows := windows
    diagnostics := diagnostics ++ timeDiagnostics ++ modeDiagnostics }

end

end DataNexus.Semantic
