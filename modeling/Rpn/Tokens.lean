import Rpn.Error
import Rpn.Feed

/-!
# Tokens

The tokens of an expression are the maximal non-empty runs of bytes other than the delimiter,
in the part of the text in front of its first NUL.

* `tokens` lists them, `tokenFeed` delivers them one by one, and `tokenize` counts what the feed
  delivers and then lists it, unless it is too much;
* `runs_append` says that a delimiter divides the tokens of a text;
* `delivers_tokenFeed` and `tokenize_eq` say that the feed delivers the list, and that the two passes
  list it.
-/

namespace Rpn

/-- The delimiter that stands for the default, a comma, when none is chosen. -/
def effectiveDelimiter (delimiter : UInt8) : UInt8 :=
  if delimiter = 0 then 44 else delimiter

/-- The most tokens that an expression may have when no limit is chosen. -/
def tokenLimit : Nat := 4096

/-- The limit that holds where `limit` is chosen. -/
def effectiveTokenLimit (limit : Int64) : Nat :=
  if limit ≤ 0 then tokenLimit else limit.toInt.toNat

/-- Puts a run in front of others, unless it is empty. -/
def consRun (run : Bytes) (runs : List Bytes) : List Bytes :=
  if run = [] then runs else run :: runs

/-- Extends a scan from the right by the byte in front of it: the run that reaches up to the
byte, and the complete runs behind that one. -/
def scanStep (delimiter : UInt8) (b : UInt8) (scan : Bytes × List Bytes) : Bytes × List Bytes :=
  if b = delimiter then ([], consRun scan.1 scan.2) else (b :: scan.1, scan.2)

/-- Scans a text from the right. -/
def scanRuns (delimiter : UInt8) (text : Bytes) : Bytes × List Bytes :=
  text.foldr (scanStep delimiter) ([], [])

/-- The maximal non-empty runs of bytes other than the delimiter. -/
def runs (delimiter : UInt8) (text : Bytes) : List Bytes :=
  consRun (scanRuns delimiter text).1 (scanRuns delimiter text).2

/-- The part of a text in front of its first NUL. -/
def beforeNul (text : Bytes) : Bytes :=
  text.takeWhile fun b => b ≠ 0

/-- The tokens of an expression. -/
def tokens (delimiter : UInt8) (expr : Bytes) : List Bytes :=
  runs (effectiveDelimiter delimiter) (beforeNul expr)

/-- Delivers the runs of a text in order; `run` is the run in front of the text, in reverse. -/
def feedRuns {σ : Type} (delimiter : UInt8) (consume : Bytes → σ → ForInStep σ) :
    Bytes → Bytes → σ → ForInStep σ
  | run, [], s => if run = [] then .yield s else consume run.reverse s
  | run, b :: rest, s =>
    if b = delimiter then
      if run = [] then feedRuns delimiter consume [] rest s
      else
        match consume run.reverse s with
        | .done s => .done s
        | .yield s => feedRuns delimiter consume [] rest s
    else feedRuns delimiter consume (b :: run) rest s

/-- Delivers the tokens of an expression in order. -/
def tokenFeed (delimiter : UInt8) (expr : Bytes) : Feed Bytes where
  run consume start :=
    feedRuns (effectiveDelimiter delimiter) consume [] (beforeNul expr) start

/-- Counts a token, and goes on as long as there is room for one more. -/
def countToken (room : Nat) (_ : Bytes) (count : Nat) : ForInStep Nat :=
  if count < room then .yield (count + 1) else .done (count + 1)

/-- The number of tokens of an expression, counted no further than one beyond the room. -/
def countTokens (delimiter : UInt8) (room : Nat) (expr : Bytes) : Nat :=
  ((tokenFeed delimiter expr).run (countToken room) 0).value

/-- The tokens of an expression, unless they are more than the limit.  A first pass counts them and
a second one lists them. -/
def tokenize (delimiter : UInt8) (limit : Int64) (expr : Bytes) : Except Error (List Bytes) :=
  let room := effectiveTokenLimit limit
  if countTokens delimiter room expr ≤ room then .ok (tokenFeed delimiter expr).toList
  else .error .tokenStorage

theorem scanRuns_cons_delimiter (delimiter : UInt8) (text : Bytes) :
    scanRuns delimiter (delimiter :: text) = ([], runs delimiter text) := by
  simp [scanRuns, scanStep, runs]

theorem scanRuns_cons {delimiter b : UInt8} (h : b ≠ delimiter) (text : Bytes) :
    scanRuns delimiter (b :: text) =
      (b :: (scanRuns delimiter text).1, (scanRuns delimiter text).2) := by
  simp [scanRuns, scanStep, h]

@[simp] theorem runs_cons_delimiter (delimiter : UInt8) (text : Bytes) :
    runs delimiter (delimiter :: text) = runs delimiter text := by
  simp [runs, scanRuns_cons_delimiter, consRun]

theorem scanRuns_append (delimiter : UInt8) (front text : Bytes) :
    scanRuns delimiter (front ++ delimiter :: text) =
      ((scanRuns delimiter front).1, (scanRuns delimiter front).2 ++ runs delimiter text) := by
  induction front with
  | nil => exact scanRuns_cons_delimiter delimiter text
  | cons b rest ih =>
    by_cases h : b = delimiter
    · subst h
      rw [List.cons_append, scanRuns_cons_delimiter, scanRuns_cons_delimiter]
      simp only [runs] at ih ⊢
      rw [ih]
      by_cases he : (scanRuns b rest).1 = [] <;> simp [consRun, he]
    · rw [List.cons_append, scanRuns_cons h, scanRuns_cons h, ih]

/-- A delimiter divides the runs of a text. -/
theorem runs_append (delimiter : UInt8) (front text : Bytes) :
    runs delimiter (front ++ delimiter :: text) = runs delimiter front ++ runs delimiter text := by
  simp only [runs, scanRuns_append]
  by_cases h : (scanRuns delimiter front).1 = [] <;> simp [consRun, h]

theorem scanRuns_of_not_mem {delimiter : UInt8} {run : Bytes} (h : delimiter ∉ run)
    (text : Bytes) :
    scanRuns delimiter (run ++ text) =
      (run ++ (scanRuns delimiter text).1, (scanRuns delimiter text).2) := by
  induction run with
  | nil => rfl
  | cons b rest ih =>
    have hb : b ≠ delimiter := fun e => h (by simp [e])
    have hr : delimiter ∉ rest := fun m => h (by simp [m])
    rw [List.cons_append, scanRuns_cons hb, ih hr]
    rfl

theorem feedRuns_eq {σ : Type} (delimiter : UInt8) (consume : Bytes → σ → ForInStep σ)
    (run text : Bytes) (s : σ) (h : delimiter ∉ run) :
    feedRuns delimiter consume run text s =
      foldUntil consume (runs delimiter (run.reverse ++ text)) s := by
  have hrev : delimiter ∉ run.reverse := by simpa using h
  induction text generalizing run s with
  | nil =>
    rw [feedRuns, runs, scanRuns_of_not_mem hrev]
    by_cases he : run = []
    · simp [he, scanRuns, consRun, foldUntil]
    · simp only [scanRuns, List.foldr_nil, List.append_nil, consRun, List.reverse_eq_nil_iff, he,
        if_false, foldUntil]
      cases consume run.reverse s <;> rfl
  | cons b rest ih =>
    rw [feedRuns]
    by_cases hb : b = delimiter
    · subst hb
      have next := fun s => ih [] s (by simp) (by simp)
      simp only [List.reverse_nil, List.nil_append] at next
      rw [runs, scanRuns_append, ← List.append_nil run.reverse, scanRuns_of_not_mem hrev]
      by_cases he : run = []
      · simp [he, consRun, scanRuns, next]
      · simp only [if_true, he, if_false, List.append_nil, scanRuns, List.foldr_nil, consRun,
          List.reverse_eq_nil_iff, List.nil_append, foldUntil]
        cases consume run.reverse s with
        | done s => rfl
        | yield s => exact next s
    · have hrun : delimiter ∉ b :: run := by
        simp [h, Ne.symm hb]
      rw [if_neg hb, ih (b :: run) s hrun (by simpa [and_comm] using hrun)]
      simp

/-- The feed delivers the tokens. -/
theorem delivers_tokenFeed (delimiter : UInt8) (expr : Bytes) :
    (tokenFeed delimiter expr).Delivers (tokens delimiter expr) := by
  intro σ consume s
  simpa [tokenFeed, tokens] using
    feedRuns_eq (effectiveDelimiter delimiter) consume [] (beforeNul expr) s (by simp)

theorem foldUntil_countToken {room count : Nat} (h : count ≤ room) (words : List Bytes) :
    (foldUntil (countToken room) words count).value = min (count + words.length) (room + 1) := by
  induction words generalizing count with
  | nil =>
    show count = min (count + 0) (room + 1)
    omega
  | cons token rest ih =>
    rw [foldUntil, countToken, List.length_cons]
    by_cases more : count < room
    · simp only [if_pos more]
      rw [ih more]
      omega
    · simp only [if_neg more]
      show count + 1 = min (count + (rest.length + 1)) (room + 1)
      omega

/-- The first pass counts all tokens, or one more than there is room for. -/
theorem countTokens_eq (delimiter : UInt8) (room : Nat) (expr : Bytes) :
    countTokens delimiter room expr = min (tokens delimiter expr).length (room + 1) := by
  rw [countTokens, delivers_tokenFeed, foldUntil_countToken (Nat.zero_le room), Nat.zero_add]

/-- Both passes together list the tokens, or refuse them where they are too many. -/
theorem tokenize_eq (delimiter : UInt8) (limit : Int64) (expr : Bytes) :
    tokenize delimiter limit expr =
      if (tokens delimiter expr).length ≤ effectiveTokenLimit limit then .ok (tokens delimiter expr)
      else .error .tokenStorage := by
  have room : countTokens delimiter (effectiveTokenLimit limit) expr ≤ effectiveTokenLimit limit ↔
      (tokens delimiter expr).length ≤ effectiveTokenLimit limit := by
    rw [countTokens_eq]
    omega
  simp only [tokenize, room, Feed.Delivers.toList_eq (delivers_tokenFeed delimiter expr)]

example : tokens 44 (ascii ",1,,eax,+,") = [ascii "1", ascii "eax", ascii "+"] := by decide

end Rpn
