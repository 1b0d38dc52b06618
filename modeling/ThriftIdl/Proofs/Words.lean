import ThriftIdl.Proofs.Reader.Lexemes
import ThriftIdl.Proofs.Session
import ThriftIdl.Proofs.Token.Lexer
import ThriftIdl.Proofs.Token.Results

/-!
# Keywords, names and scopes at a cursor

A keyword that is itself a name is told from a longer name by the character after it; a name is the
longest run of characters that are allowed in one. Both tests agree at every cursor
(`Session.words_agree`). So the scope of a namespace that is read is the name that stands there, in
whichever order the scopes are tried, and it is refused exactly where the reader of tokens reports its
token.
-/
namespace ThriftIdl

open Text

/-- The scope of a namespace, if scopes are tried in a given order. -/
def Lexical.scopeAmong (scopes : List String) : Reader (List Char) String :=
  Reader.orFail .scopeExpected fun text => scopes.findSome? fun scope =>
    (afterScope? scope text).map fun rest => (scope, rest)

/-- A change of what is read is a change of what is cut off. -/
theorem Reader.map_orFail {α β : Type} (change : α → β) (reason : Reason)
    (cut : List Char → Option (α × List Char)) :
    change <$> Reader.orFail reason cut =
      Reader.orFail reason fun text => (cut text).map (Prod.map change id) := by
  funext text
  show Reader.bind (Reader.orFail reason cut) _ text = _
  rw [Reader.bind, Reader.orFail, Reader.orFail]
  cases cut text <;> rfl

/-- In whichever order the scopes are tried, the same one is read. -/
theorem scopeAmong_of_perm {scopes : List String} (order : scopes.Perm namespaceScopes) :
    Lexical.scopeAmong scopes = Lexical.namespaceScope := by
  have same (text : List Char) :
      (scopes.findSome? fun scope => (Lexical.afterScope? scope text).map fun rest => (scope, rest)) =
        namespaceScopes.findSome? fun scope =>
          (Lexical.afterScope? scope text).map fun rest => (scope, rest) := by
    apply Option.ext
    rintro ⟨scope, rest⟩
    rw [Reader.findSome?_afterScope?_eq_some_iff fun _ => order.mem_iff.1,
      Reader.findSome?_afterScope?_eq_some_iff fun _ => id, order.mem_iff]
  exact congrArg (Reader.orFail .scopeExpected) (funext same)

section Tokens

variable {text word rest : List Char} {before : Ahead}

/-- Where the scope of a namespace is expected, the token of a name is the name that is scanned. -/
theorem matchTerminal?_identifier_iff :
    matchTerminal? (List.contains [.identifier, .mark .star]) text = some (.identifier, word, rest) ↔
      scanName? text = some (word, rest) := by
  rw [matchTerminal?_eq_some_iff, scanName?_eq_some_iff]
  simp [Terminal.Before]

/-- A name that is ahead is read as the scope of a namespace if a name follows, and is reported if it is
no scope. -/
theorem TokenReader.namespaceScope_apply (named : before.token.terminal = .identifier) :
    namespaceScope before =
      (nextToken [.identifier] (some before.token) 0 before.rest).map fun found =>
        (String.ofList before.token.text, ⟨found.1, found.2,
          if String.ofList before.token.text ∈ namespaceScopes then before.invalid
          else before.invalid.or (some (.unknownScope (String.ofList before.token.text)))⟩) := by
  have noStar : before.token.terminal ≠ .mark .star := by
    rw [named]
    decide
  have passes : takes (.mark .star) [.identifier] before = .ok (false, before) :=
    gives_takes.2 (.inr ⟨noStar, rfl, rfl⟩)
  have takesName : take .identifier [.identifier] before = advance [.identifier] before := by
    show (if before.token.terminal = .identifier then advance [.identifier] else reject) before = _
    rw [if_pos named]
  show (takes (.mark .star) [.identifier] before >>= _) = _
  rw [passes]
  show ((take .identifier [.identifier] before >>= _) >>= _) = _
  rw [takesName, advance_apply]
  cases nextToken [.identifier] (some before.token) 0 before.rest with
  | error rejection => rfl
  | ok found =>
    show (if namespaceScopes.contains (String.ofList before.token.text) then _ else _ :
      TokenReader String) _ = _
    simp only [List.contains_eq_mem, decide_eq_true_eq, Except.map]
    split <;> rfl

end Tokens

namespace Session

/-- A name is read at the cursor of a session, and leads to another session. -/
def ReadsName (session reached : Session) (name : String) : Prop :=
  session.step (.production .identifier) = (reached, .ok (.reading (.name name)))

/-- The scope of a namespace is read at the cursor of a session, and leads to another session. -/
def ReadsScope (session reached : Session) (scope : String) : Prop :=
  session.step .namespaceScope = (reached, .ok (.text scope))

/-- How keywords, names and the scopes of namespaces are told at the cursor of a session. -/
structure WordsAgree (session : Session) : Prop where
  /-- A keyword that is itself a name stands at the cursor exactly if it is the name that is read there. -/
  keyword (word : String) : IsName word.toList → ∃ found,
    session.step (.checkKeyword word) = (session, .ok (.flag found)) ∧
      (found = true ↔ ∃ reached, session.ReadsName reached word)
  /-- Taking it leads where reading the name leads. -/
  taken (word : String) (reached : Session) : IsName word.toList →
    (session.step (.acceptKeyword word) = (reached, .ok (.flag true)) ↔ session.ReadsName reached word)
  /-- A scope other than the star is read exactly if it is the name that is read there and a scope. -/
  scope (scope : String) (reached : Session) : scope ≠ "*" →
    (session.ReadsScope reached scope ↔ scope ∈ namespaceScopes ∧ session.ReadsName reached scope)
  /-- The order in which the scopes are tried does not matter. -/
  order (scopes : List String) : scopes.Perm namespaceScopes →
    session.step .namespaceScope = session.afterwards (fun rest => session.ending - rest.length) .text
      (Lexical.scopeAmong scopes session.rest)
  /-- The name that is read is the token of a name that is found there, where a scope is expected. -/
  token (word : String) (after : List Char) :
    matchTerminal? (List.contains [.identifier, .mark .star]) session.rest =
        some (.identifier, word.toList, after) ↔
      ∃ reached, session.ReadsName reached word ∧ reached.rest = after
  /-- A scope is read exactly if the reader of tokens does not report that token. -/
  report (word : String) (after : List Char) :
    matchTerminal? (List.contains [.identifier, .mark .star]) session.rest =
        some (.identifier, word.toList, after) →
      ∃ known : Bool, (known = true ↔ ∃ reached, session.ReadsScope reached word) ∧
        ∀ left invalid, TokenReader.namespaceScope ⟨⟨.identifier, word.toList, left⟩, after, invalid⟩ =
          (nextToken [.identifier] (some ⟨.identifier, word.toList, left⟩) 0 after).map fun found =>
            (word, ⟨found.1, found.2,
              if known then invalid else invalid.or (some (.unknownScope word))⟩)

section Steps

variable {session reached : Session}

/-- A name is read off the cursor where one can be scanned. -/
theorem readsName_iff (start : 0 ≤ session.offset) {name : String} :
    session.ReadsName reached name ↔ ∃ left, scanName? session.rest = some (name.toList, left) ∧
      session.reach (session.ending - left.length) none = reached := by
  have reads : (Production.identifier.reader (session.setting.levels session.depth) :
      Reader (List Char) (Reading Nat)) = _ :=
    Reader.map_orFail Reading.name .nameExpected _
  rw [ReadsName, step_production_eq, run_orFail_eq_ok_iff start reads (by decide)]
  constructor
  · rintro ⟨value, left, cut, moved, given⟩
    obtain ⟨_, named, same⟩ := Option.map_eq_some_iff.1 cut
    obtain ⟨⟨found, rest⟩, scanned, rfl⟩ := Option.map_eq_some_iff.1 named
    obtain ⟨rfl, rfl⟩ := Prod.mk.inj same
    obtain rfl : String.ofList found = name := by simpa [Reading.map] using given
    exact ⟨rest, by rw [scanned, String.toList_ofList], moved⟩
  · rintro ⟨left, scanned, moved⟩
    refine ⟨.name name, left, ?_, moved, rfl⟩
    simp [scanned]

/-- A scope is read where it can be cut off. -/
theorem readsScope_iff (start : 0 ≤ session.offset) {scope : String} :
    session.ReadsScope reached scope ↔ ∃ left, scope ∈ namespaceScopes ∧
      Lexical.afterScope? scope session.rest = some left ∧
        session.reach (session.ending - left.length) none = reached := by
  rw [ReadsScope, step, run_orFail_eq_ok_iff start rfl (by decide)]
  constructor
  · rintro ⟨value, left, found, moved, given⟩
    obtain rfl : value = scope := by simpa using given
    obtain ⟨mem, cut⟩ := (Reader.findSome?_afterScope?_eq_some_iff fun _ => id).1 found
    exact ⟨left, mem, cut, moved⟩
  · rintro ⟨left, mem, cut, moved⟩
    exact ⟨scope, left, (Reader.findSome?_afterScope?_eq_some_iff fun _ => id).2 ⟨mem, cut⟩, moved, rfl⟩

/-- A scope other than the star is read where it is a name that is read. -/
theorem readsScope_iff_readsName (start : 0 ≤ session.offset) {scope : String} (other : scope ≠ "*") :
    session.ReadsScope reached scope ↔ scope ∈ namespaceScopes ∧ session.ReadsName reached scope := by
  rw [readsName_iff start, readsScope_iff start, ← exists_and_left]
  refine exists_congr fun left => and_congr_right fun known => ?_
  rw [Reader.afterScope?_eq_some_iff_starts known, if_neg other]

/-- The star is no name. -/
theorem ReadsName.ne_star (start : 0 ≤ session.offset) {name : String}
    (reads : session.ReadsName reached name) : name ≠ "*" := by
  rintro rfl
  obtain ⟨left, scanned, -⟩ := (readsName_iff start).1 reads
  exact absurd (scanName?_eq_some scanned).2.1 (by decide)

/-- A keyword that is a name is taken where that name can be scanned. Elsewhere there is none. -/
theorem takeKeyword_eq (start : 0 ≤ session.offset) {word : String} (isName : IsName word.toList) :
    session.takeKeyword word =
      match afterKeyword? word.toList session.rest with
      | some left => (session.reach (session.ending - left.length) none, .ok (.flag true))
      | none => (session, .ok (.flag false)) := by
  rw [takeKeyword]
  split
  next beyond =>
    have empty : session.rest = [] := rest_eq_nil start beyond
    rw [empty, afterKeyword?_eq_none isName rfl]
  next =>
    rw [run_orFail start rfl fun same => by cases same]
    cases afterKeyword? word.toList session.rest <;> rfl

end Steps

/-- Wherever a cursor stands in a text or beyond it, keywords, names and the scopes of namespaces are told
by one test, and the reader of tokens makes the same one. -/
theorem words_agree (source : List Char) (limit : Int) (offset : Nat) (depth : Int)
    (furthest : Option Diagnosis) : WordsAgree ⟨source, limit, offset, depth, furthest⟩ := by
  have start : 0 ≤ (Session.mk source limit offset depth furthest).offset := Int.natCast_nonneg offset
  generalize Session.mk source limit offset depth furthest = session at start ⊢
  constructor
  · intro word isName
    rw [step, takeKeyword_eq start isName]
    cases cut : afterKeyword? word.toList session.rest with
    | none =>
      refine ⟨false, rfl, fun same => (by cases same), ?_⟩
      rintro ⟨reached, reads⟩
      obtain ⟨left, scanned, -⟩ := (readsName_iff start).1 reads
      rw [← afterKeyword?_eq_some_iff_scanName? isName, cut] at scanned
      cases scanned
    | some left =>
      have scanned := (afterKeyword?_eq_some_iff_scanName? isName).1 cut
      exact ⟨true, rfl, fun _ => ⟨_, (readsName_iff start).2 ⟨left, scanned, rfl⟩⟩, fun _ => rfl⟩
  · intro word reached isName
    rw [readsName_iff start, step, takeKeyword_eq start isName]
    simp only [← afterKeyword?_eq_some_iff_scanName? isName]
    cases afterKeyword? word.toList session.rest <;> simp [Prod.ext_iff]
  · intro scope reached other
    exact readsScope_iff_readsName start other
  · intro scopes order
    rw [step, run_eq start, scopeAmong_of_perm order]
    rfl
  · intro word after
    rw [matchTerminal?_identifier_iff]
    constructor
    · intro scanned
      have suffix : after <:+ session.rest := ⟨_, (scanName?_eq_some scanned).1.symm⟩
      exact ⟨_, (readsName_iff start).2 ⟨after, scanned, rfl⟩, rest_reach start suffix⟩
    · rintro ⟨reached, reads, rfl⟩
      obtain ⟨left, scanned, rfl⟩ := (readsName_iff start).1 reads
      rw [rest_reach start ⟨_, (scanName?_eq_some scanned).1.symm⟩]
      exact scanned
  · intro word after found
    have reads := (readsName_iff start).2 ⟨after, matchTerminal?_identifier_iff.1 found, rfl⟩
    refine ⟨decide (word ∈ namespaceScopes), ?_, fun left invalid => ?_⟩
    · simp only [decide_eq_true_eq, readsScope_iff_readsName start (reads.ne_star start)]
      constructor
      · intro known
        exact ⟨_, known, reads⟩
      · rintro ⟨_, known, -⟩
        exact known
    · rw [TokenReader.namespaceScope_apply rfl]
      simp only [String.ofList_toList, decide_eq_true_eq]

/-- Of two scopes of which one begins with the other, the whole name is read, which is not the shorter one. -/
theorem words_agree_py_twisted :
    let session : Session := ⟨"namespace py.twisted a".toList, 64, 10, 0, none⟩
    let reached : Session := ⟨"namespace py.twisted a".toList, 64, 20, 0, none⟩
    session.ReadsName reached "py.twisted" ∧ session.ReadsScope reached "py.twisted" ∧
      session.step (.acceptKeyword "py.twisted") = (reached, .ok (.flag true)) ∧
      session.step (.checkKeyword "py") = (session, .ok (.flag false)) ∧
      (∀ reached, ¬ session.ReadsScope reached "py") := by
  intro session reached
  have agree : session.WordsAgree := words_agree _ 64 10 0 none
  have reads : session.ReadsName reached "py.twisted" := rfl
  have noName (other : Session) : ¬ session.ReadsName other "py" := by
    intro reads'
    have same := reads.symm.trans reads'
    simp at same
  obtain ⟨found, stepped, names⟩ := agree.keyword "py" (by decide)
  have missing : found = false := by
    rw [Bool.eq_false_iff, ne_eq, names]
    rintro ⟨other, reads'⟩
    exact noName other reads'
  refine ⟨reads, (agree.scope _ _ (by decide)).2 ⟨by decide, reads⟩,
    (agree.taken _ _ (by decide)).2 reads, missing ▸ stepped, fun other scope => ?_⟩
  exact noName other ((agree.scope _ _ (by decide)).1 scope).2

end Session
end ThriftIdl
