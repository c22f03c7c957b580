/-
  Reading stored messages.

  * `Diagnostic.ofRecord?_object`: what is read from an object depends on what it holds under the
    names of the parts of a message.  The order of members does not matter, nor whether a part is
    missing or null;
  * `Diagnostic.ofRecord?_record`: a message is read back from its form for storing;
  * `Diagnostic.record_faithful`: it is read back from every object that holds the same, and no two
    messages have the same form.
-/
import Stencil.Diagnostic.Record
import Stencil.Proofs.Json
import Stencil.Proofs.Outcome

namespace Stencil

open Text Json

/-! ## What readers see -/

theorem Content.respects_ofRecord? : Respects Content.ofRecord? := by
  refine respects_variant? fun tag j k h => ?_
  show j.string? >>= _ = k.string? >>= _
  rw [respects_string? h]

theorem Severity.respects_ofRecord? : Respects Severity.ofRecord? := by
  intro j k h
  rw [ofRecord?, respects_tag? h, ofRecord?]

theorem DetailKind.respects_ofRecord? : Respects DetailKind.ofRecord? := by
  intro j k h
  rw [ofRecord?, respects_tag? h, ofRecord?]

theorem Detail.respects_ofRecord? : Respects Detail.ofRecord? := by
  refine respects_members? fun m n h => ?_
  refine bind_read (h "kind" (by simp)) DetailKind.respects_ofRecord? rfl fun kind => ?_
  exact bind_read (h "content" (by simp)) Content.respects_ofRecord? rfl fun content => rfl

theorem onlyMembers_eq (names : List String) {j k : Json} (h : Same j k) :
    j.onlyMembers names = k.onlyMembers names := by
  cases h with
  | refl => rfl
  | array => rfl
  | @object ms ns hms hns hsame =>
    have hall : ∀ ms : List (String × Json), (Json.object ms).onlyMembers names =
        (ms.map Prod.fst).all fun name => names.contains name := by
      intro ms
      rw [List.all_map]
      rfl
    rw [hall, hall, (perm_names hms hns hsame).all_eq]

theorem Text.Span.respects_ofRecord? : Respects Span.ofRecord? := by
  intro j k h
  simp only [Span.ofRecord?, onlyMembers_eq _ h]
  refine respects_members? (fun m n h => ?_) h
  refine bind_read (h "start" (by simp)) respects_word? rfl fun start => ?_
  exact bind_read (h "end" (by simp)) respects_word? rfl fun stop => rfl

theorem Snippet.respects_ofRecord? : Respects Snippet.ofRecord? := by
  refine respects_members? fun m n h => ?_
  refine bind_read (h "name" (by simp)) respects_string? rfl fun name => ?_
  refine bind_read (h "source" (by simp)) respects_string? rfl fun source => ?_
  exact bind_read (h "span" (by simp)) Span.respects_ofRecord? rfl fun span => rfl

/-! ## The form for storing -/

/-- The tag of a content. -/
def Content.tag : Content → String
  | plain _ => "Plain"
  | markdown _ => "Markdown"

/-- The tag of a kind of detail. -/
def DetailKind.tag : DetailKind → String
  | error => "Error"
  | info => "Info"

/-- A content under its tag. -/
def Content.tagged (c : Content) : Json :=
  .object [(c.tag, .string c.text)]

/-- A detail with its kind as a tag. -/
def Detail.tagged (d : Detail) : Json :=
  .object [("kind", .string d.kind.tag), ("content", d.content.tagged)]

theorem Content.record_eq (c : Content) : c.record = c.tagged := by
  cases c <;> rfl

theorem Detail.record_eq (d : Detail) : d.record = d.tagged := by
  rw [record, tagged, Content.record_eq]
  cases d.kind <;> rfl

/-! ## What is read back -/

theorem Content.ofRecord?_record (c : Content) : Content.ofRecord? c.record = some c := by
  cases c <;> rfl

theorem Severity.ofRecord?_record (s : Severity) : Severity.ofRecord? s.record = some s := by
  cases s
  rfl

theorem DetailKind.ofRecord?_record (k : DetailKind) : DetailKind.ofRecord? k.record = some k := by
  cases k <;> rfl

theorem Detail.ofRecord?_record (d : Detail) : Detail.ofRecord? d.record = some d := by
  show (DetailKind.ofRecord? d.kind.record >>= fun kind =>
    Content.ofRecord? d.content.record >>= fun content => some ⟨kind, content⟩) = some d
  rw [DetailKind.ofRecord?_record, Content.ofRecord?_record]
  rfl

/-- A span whose offsets are numbers of 64 bits. -/
def Text.Span.InWords (p : Span) : Prop :=
  p.start < UInt64.size ∧ p.stop < UInt64.size

theorem word?_integer {n : Nat} (h : n < UInt64.size) : word? (.integer n) = some n := by
  rw [word?, if_pos ⟨Int.natCast_nonneg n, h⟩]
  rfl

theorem Text.Span.ofRecord?_record {p : Span} (h : p.InWords) :
    Span.ofRecord? p.record = some p := by
  show (word? (.integer p.start) >>= fun start => word? (.integer p.stop) >>= fun stop =>
    some (⟨start, stop⟩ : Span)) = some p
  rw [word?_integer h.1, word?_integer h.2]
  rfl

theorem Snippet.ofRecord?_record {s : Snippet} (h : s.span.InWords) :
    Snippet.ofRecord? s.record = some s := by
  show (Span.ofRecord? s.span.record >>= fun span =>
    some (⟨s.name, s.source, span⟩ : Snippet)) = some s
  rw [Span.ofRecord?_record h]
  rfl

theorem mapM_record {α : Type} {read : Json → Option α} {write : α → Json}
    (h : ∀ a, read (write a) = some a) (xs : List α) : (xs.map write).mapM read = some xs :=
  mapM_eq_some.2 (List.forall₂_map_left_iff.2 (List.forall₂_same.2 fun a _ => h a))

namespace Diagnostic

/-- The names of the parts of a message. -/
def partNames : List String :=
  ["code", "title", "kind", "problem", "details", "hints", "snippet"]

/-- **Reading a message** sees what an object holds under the names of its parts. -/
theorem ofRecord?_object {ms ns : List (String × Json)}
    (h : SameMembers partNames (fun name => ms.lookup name) fun name => ns.lookup name) :
    ofRecord? (.object ms) = ofRecord? (.object ns) := by
  refine bind_members (fun m n h => ?_) h
  rw [optional?_eq (h "code" (by simp [partNames])) respects_string?]
  refine bind_congr fun code => ?_
  refine bind_read (h "title" (by simp [partNames])) respects_string? rfl fun title => ?_
  refine bind_read (h "kind" (by simp [partNames])) Severity.respects_ofRecord? rfl fun kind => ?_
  rw [optional?_eq (h "problem" (by simp [partNames])) Content.respects_ofRecord?]
  refine bind_congr fun problem => ?_
  refine bind_readList (h "details" (by simp [partNames])) Detail.respects_ofRecord? fun items => ?_
  refine bind_readList (h "hints" (by simp [partNames])) Content.respects_ofRecord? fun hints => ?_
  rw [optional?_eq (h "snippet" (by simp [partNames])) Snippet.respects_ofRecord?]

/-- A message whose snippet, if there is one, has offsets of 64 bits. -/
def InWords (d : Diagnostic) : Prop :=
  ∀ s ∈ d.snippet, s.span.InWords

/-- **A message is read back from its form for storing.** -/
theorem ofRecord?_record {d : Diagnostic} (h : d.InWords) : ofRecord? d.record = some d := by
  obtain ⟨code, title, severity, problem, details, hints, snippet⟩ := d
  have hproblem : optional? Content.ofRecord? (some ((problem.map Content.record).getD .null)) =
      some problem := by
    cases problem with
    | none => rfl
    | some c => cases c <;> rfl
  have hsnippet : optional? Snippet.ofRecord? (snippet.map Snippet.record) = some snippet := by
    cases snippet with
    | none => rfl
    | some s => exact congrArg (Option.map some) (Snippet.ofRecord?_record (h s rfl))
  have hdetails := mapM_record Detail.ofRecord?_record details
  have hhints := mapM_record Content.ofRecord?_record hints
  have hread : ofRecord? (record ⟨code, title, severity, problem, details, hints, snippet⟩) = (do
      let severity ← Severity.ofRecord? severity.record
      let problem ← optional? Content.ofRecord? (some ((problem.map Content.record).getD .null))
      let details ← (details.map Detail.record).mapM Detail.ofRecord?
      let hints ← (hints.map Content.record).mapM Content.ofRecord?
      let snippet ← optional? Snippet.ofRecord? (snippet.map Snippet.record)
      return ⟨code, title, severity, problem, details, hints, snippet⟩) := by
    cases code <;> cases snippet <;> rfl
  rw [hread, Severity.ofRecord?_record, hproblem, hdetails, hhints, hsnippet]
  rfl

/-- The form of a message, as the members of an object: a missing code and a missing snippet are
    left out, a missing problem is null, contents and kinds are tagged. -/
structure IsForm (d : Diagnostic) (members : List (String × Json)) : Prop where
  nodup : (members.map Prod.fst).Nodup
  code : members.lookup "code" = d.code.map .string
  title : members.lookup "title" = some (.string d.title)
  kind : members.lookup "kind" = some (.string "Error")
  problem : members.lookup "problem" = some ((d.problem.map Content.tagged).getD .null)
  details : members.lookup "details" = some (.array (d.details.map Detail.tagged))
  hints : members.lookup "hints" = some (.array (d.hints.map Content.tagged))
  snippet : members.lookup "snippet" = d.snippet.map Snippet.record

theorem exists_isForm (d : Diagnostic) :
    ∃ members, d.record = .object members ∧ IsForm d members := by
  obtain ⟨code, title, severity, problem, details, hints, snippet⟩ := d
  have hcontent : Content.record = Content.tagged := funext Content.record_eq
  have hdetail : Detail.record = Detail.tagged := funext Detail.record_eq
  refine ⟨_, rfl, ?_⟩
  simp only [hcontent, hdetail]
  cases severity
  cases code <;> cases snippet <;>
    exact ⟨by simp [optionMember], rfl, rfl, rfl, rfl, rfl, rfl, rfl⟩

/-- **The form for storing is faithful.**  A message is read back from its form, and from every
    object that holds the same under the names of the parts of a message, in any order and among
    any other members, whether a part is missing or null.  No two messages have forms that are the
    same but for the order of members. -/
theorem record_faithful (d : Diagnostic) (h : d.InWords) :
    ofRecord? d.record = some d ∧
    (∃ members, d.record = .object members ∧ IsForm d members ∧
      ∀ others : List (String × Json),
        SameMembers partNames (fun name => members.lookup name) (fun name => others.lookup name) →
        ofRecord? (.object others) = some d) ∧
    ∀ e : Diagnostic, e.InWords → (Same d.record e.record ↔ d = e) := by
  have hread := ofRecord?_record h
  obtain ⟨members, hmembers, hform⟩ := exists_isForm d
  refine ⟨hread, ⟨members, hmembers, hform, fun others hothers => ?_⟩,
    fun e he => ⟨fun hsame => ?_, ?_⟩⟩
  · rw [← ofRecord?_object hothers, ← hmembers, hread]
  · obtain ⟨others, hothers, -⟩ := exists_isForm e
    rw [hmembers, hothers] at hsame
    have heq := ofRecord?_object (hsame.members partNames)
    rw [← hmembers, ← hothers, hread, ofRecord?_record he] at heq
    exact Option.some.inj heq
  · rintro rfl
    exact .refl _

/-- A message without a code and a problem, read from an object with a code that is null, without
    a problem, and with a member of its own.  The members of the snippet stand in another order. -/
theorem record_faithful_rearranged :
    InWords ⟨none, "t", .error, none, [⟨.info, .plain "a"⟩], [.markdown "b"],
      some ⟨"q", "é", ⟨0, 2⟩⟩⟩ ∧
    ofRecord? (record ⟨none, "t", .error, none, [⟨.info, .plain "a"⟩], [.markdown "b"],
      some ⟨"q", "é", ⟨0, 2⟩⟩⟩) =
      some ⟨none, "t", .error, none, [⟨.info, .plain "a"⟩], [.markdown "b"],
        some ⟨"q", "é", ⟨0, 2⟩⟩⟩ ∧
    ofRecord? (.object [("snippet", .object [("span", Span.record ⟨0, 2⟩), ("source", .string "é"),
        ("name", .string "q")]), ("note", .bool true), ("code", .null),
        ("hints", .array [.object [("Markdown", .string "b")]]), ("kind", .string "Error"),
        ("details", .array [.object [("kind", .string "Info"),
          ("content", .object [("Plain", .string "a")])]]), ("title", .string "t")]) =
      some ⟨none, "t", .error, none, [⟨.info, .plain "a"⟩], [.markdown "b"],
        some ⟨"q", "é", ⟨0, 2⟩⟩⟩ := by
  have hwords : InWords ⟨none, "t", .error, none, [⟨.info, .plain "a"⟩], [.markdown "b"],
      some ⟨"q", "é", ⟨0, 2⟩⟩⟩ := by
    rintro _ ⟨⟩
    exact ⟨by decide, by decide⟩
  obtain ⟨hread, ⟨members, hmembers, -, hothers⟩, -⟩ := record_faithful _ hwords
  refine ⟨hwords, hread, hothers _ ?_⟩
  obtain rfl := object.inj hmembers
  simp only [partNames, SameMembers, List.forall_mem_cons]
  refine ⟨.refl _, .refl _, .refl _, .refl _, .refl _, .refl _, ?_, nofun⟩
  exact .of_perm (List.reverse_perm _).symm (by decide)

end Diagnostic

end Stencil
