import SubnetRegistry.Proofs.Config
import SubnetRegistry.Proofs.Handler
import SubnetRegistry.Proofs.Text

/-!
# Subjects, routing and subscription

The subject of an operation is routed to it and no other subject is, whatever the root. What a service
hears on its subscription are the subjects with one token after its root and the fixed one, so each of
them is routed or names an operation that there is not.

## Main statements

* `Subject.operation?_eq_ok_iff` — the subject of an operation is the only one that is routed to it.
* `Subject.ofOperation_inj` — different roots or operations have different subjects.
* `Subject.matches?_all_iff` — the subjects that a service hears.
* `Service.routing_agrees` — what it does with them, for every root that can be configured.
-/
namespace SubnetRegistry

/-! ## Subjects of operations -/

theorem Operation.ofText_eq_ok_iff {name : String} {op : Operation} :
    ofText name = .ok op ↔ name = op.text := by
  constructor
  · intro h
    unfold ofText at h
    split at h
    · next hfind =>
      cases h
      have htext := List.find?_some hfind
      exact (beq_iff_eq.1 htext).symm
    · cases h
  · rintro rfl
    exact ofText_text op

theorem Operation.ofText_eq_error {name : String} {e : SubjectError} (h : ofText name = .error e) :
    e = .unknownOperation name ∧ ∀ op : Operation, op.text ≠ name := by
  constructor
  · unfold ofText at h
    split at h
    · cases h
    · cases h
      rfl
  · rintro op rfl
    rw [ofText_text] at h
    cases h

theorem Operation.dot_not_mem_text (op : Operation) : '.' ∉ op.text.toList := by
  cases op <;> decide

namespace Subject

variable {root subject name : String} {op : Operation}

theorem dropStart_heading :
    dropStart (heading root).toList subject.toList = some name.toList ↔
      subject = heading root ++ name := by
  rw [dropStart_eq_some_iff, ← String.toList_append, String.toList_inj]

/-- A subject with the right start is routed by the rest of it. -/
theorem operation?_heading (root name : String) :
    operation? root (heading root ++ name) = Operation.ofText name := by
  rw [operation?, dropStart_heading.2 rfl]
  simp only [String.ofList_toList]

/-- The subject of an operation is routed to it, and no other subject is. -/
theorem operation?_eq_ok_iff : operation? root subject = .ok op ↔ subject = ofOperation root op := by
  constructor
  · intro h
    unfold operation? at h
    split at h
    · next rest hrest =>
      rw [← String.toList_ofList (l := rest), dropStart_heading] at hrest
      rw [hrest, Operation.ofText_eq_ok_iff.1 h, ofOperation]
    · cases h
  · rintro rfl
    exact operation?_ofOperation root op

/-! ## Tokens -/

theorem tokens_heading_append (root name : String) :
    tokens (heading root ++ name) = tokens root ++ "subnet".toList :: tokens name := by
  have hlist : (heading root ++ name).toList =
      root.toList ++ '.' :: ("subnet".toList ++ '.' :: name.toList) := by
    simp [heading, String.toList_append]
  rw [tokens, hlist, Text.split_append_sep, Text.split_append_cons (by decide)]
  rfl

theorem tokens_eq_singleton (name : String) (h : '.' ∉ name.toList) : tokens name = [name.toList] :=
  Text.split_of_not_mem h

theorem tokens_inj {a b : String} (h : tokens a = tokens b) : a = b := by
  have hjoin := congrArg (Text.join '.') h
  rwa [tokens, tokens, Text.join_split, Text.join_split, String.toList_inj] at hjoin

/-- Different roots or operations have different subjects. -/
theorem ofOperation_inj {root' : String} {op' : Operation}
    (h : ofOperation root op = ofOperation root' op') : root = root' ∧ op = op' := by
  have htokens := congrArg tokens h
  simp only [ofOperation, tokens_heading_append, tokens_eq_singleton op.text op.dot_not_mem_text,
    tokens_eq_singleton op'.text op'.dot_not_mem_text] at htokens
  obtain ⟨hroot, hop⟩ := List.append_inj' htokens rfl
  simp only [List.cons.injEq, String.toList_inj, true_and, and_true] at hop
  refine ⟨tokens_inj hroot, ?_⟩
  have htext := Operation.ofText_text op
  rw [hop, Operation.ofText_text] at htext
  exact (Except.ok.inj htext).symm

/-! ## What is heard -/

/-- Tokens without a star stand for themselves. -/
theorem tokensMatch_append_iff {pattern more ts : List (List Char)} (h : ['*'] ∉ pattern) :
    tokensMatch (pattern ++ more) ts = true ↔ ∃ us, ts = pattern ++ us ∧ tokensMatch more us = true := by
  induction pattern generalizing ts with
  | nil => simp
  | cons p pattern ih =>
    simp only [List.mem_cons, not_or] at h
    cases ts with
    | nil => simp [tokensMatch]
    | cons t ts =>
      have hstar : (p == ['*']) = false := beq_false_of_ne (Ne.symm h.1)
      simp only [List.cons_append, tokensMatch, tokenMatches, hstar, Bool.false_or,
        Bool.and_eq_true, beq_iff_eq, ih h.2, List.cons.injEq]
      grind

theorem tokensMatch_star {ts : List (List Char)} :
    tokensMatch [['*']] ts = true ↔ ∃ t, ts = [t] := by
  match ts with
  | [] => simp [tokensMatch]
  | [t] => simp [tokensMatch, tokenMatches]
  | t :: u :: ts => simp [tokensMatch]

theorem star_not_mem_tokens (h : Config.isRoot root = true) : ['*'] ∉ tokens root := by
  intro hin
  have hstar := Text.mem_of_mem_split hin (List.mem_singleton_self '*')
  simp only [Config.isRoot, Bool.and_eq_true, List.all_eq_true] at h
  simpa using h.2 '*' hstar

/-- The subjects that are heard under a root have one token after those of the root and the fixed
one. -/
theorem matches?_all_iff (h : Config.isRoot root = true) :
    matches? (all root) subject = true ↔
      ∃ name : String, '.' ∉ name.toList ∧ subject = heading root ++ name := by
  have hpattern : tokens (all root) = (tokens root ++ ["subnet".toList]) ++ [['*']] := by
    rw [all, tokens_heading_append, tokens_eq_singleton "*" (by decide), List.append_assoc]
    rfl
  have hplain : ['*'] ∉ tokens root ++ ["subnet".toList] := by
    simp [star_not_mem_tokens h]
  rw [matches?, hpattern, tokensMatch_append_iff hplain]
  simp only [tokensMatch_star]
  constructor
  · rintro ⟨_, hsubject, t, rfl⟩
    have ht : t ∈ Text.split '.' subject.toList := by
      rw [← tokens, hsubject]
      simp
    have hdot : '.' ∉ t := Text.not_mem_of_mem_split ht
    refine ⟨String.ofList t, by simpa using hdot, tokens_inj ?_⟩
    rw [hsubject, tokens_heading_append, tokens_eq_singleton (String.ofList t) (by simpa using hdot)]
    simp
  · rintro ⟨name, hdot, rfl⟩
    refine ⟨[name.toList], ?_, name.toList, rfl⟩
    rw [tokens_heading_append, tokens_eq_singleton name hdot, List.append_assoc]
    rfl

end Subject

/-! ## Messages -/

namespace Service

variable {root subject : String} (s : Service) (around : Surroundings) (payload : List UInt8)

theorem answerSubject_of_ok {op : Operation} (h : Subject.operation? root subject = .ok op) :
    s.answerSubject around root subject payload = s.answer around op payload := by
  rw [answerSubject, Request.ofMessage, h]
  rfl

theorem answerSubject_of_error {e : SubjectError} (h : Subject.operation? root subject = .error e) :
    s.answerSubject around root subject payload = ⟨.invalidRequest e.message, [], s⟩ := by
  rw [answerSubject, Request.ofMessage, h]
  rfl

end Service

/-- The two complaints about a subject read differently. -/
theorem SubjectError.message_ne (name subject : String) :
    (unknownOperation name).message ≠ (notASubnetSubject subject).message := by
  intro h
  have hunknown : "unknown subnet operation '".toList.head? = some 'u' := by decide
  have hforeign : "subject '".toList.head? = some 's' := by decide
  unfold message at h
  dsimp only at h
  have hhead := congrArg (fun text : String => text.toList.head?) h
  simp only [String.toList_append, List.head?_append, hunknown, hforeign, Option.some_or] at hhead
  exact absurd hhead (by decide)

/-- The subject of an operation is routed to it and no other subject is, so that different roots and
operations have different subjects and a service under one root refuses those of another. Under a root
that was configured, a service hears the subjects of all its operations, and what else it hears it
refuses as an operation that there is not. -/
theorem Service.routing_agrees :
    (∀ root subject op,
      Subject.operation? root subject = .ok op ↔ subject = Subject.ofOperation root op) ∧
    (∀ root root' op op', (root, op) ≠ (root', op') →
      Subject.ofOperation root op ≠ Subject.ofOperation root' op') ∧
    (∀ root root' op, root ≠ root' →
      ∃ e : SubjectError, ∀ (s : Service) around payload,
        s.answerSubject around root (Subject.ofOperation root' op) payload =
          ⟨.invalidRequest e.message, [], s⟩) ∧
    ∀ lookup c, Config.ofLookup lookup = .ok c →
      let root := c.subjectRoot
      (∀ op, Subject.matches? (Subject.all root) (Subject.ofOperation root op) = true) ∧
      ∀ subject, Subject.matches? (Subject.all root) subject = true →
        (∃ op, subject = Subject.ofOperation root op ∧ ∀ (s : Service) around payload,
          s.answerSubject around root subject payload = s.answer around op payload) ∨
        ∃ name, (∀ op : Operation, op.text ≠ name) ∧
          (∀ (s : Service) around payload, s.answerSubject around root subject payload =
            ⟨.invalidRequest (SubjectError.unknownOperation name).message, [], s⟩) ∧
          ∀ other, (SubjectError.unknownOperation name).message ≠
            (SubjectError.notASubnetSubject other).message := by
  refine ⟨fun _ _ _ => Subject.operation?_eq_ok_iff, ?_, ?_, ?_⟩
  · intro root root' op op' hne h
    obtain ⟨rfl, rfl⟩ := Subject.ofOperation_inj h
    exact hne rfl
  · intro root root' op hne
    cases h : Subject.operation? root (Subject.ofOperation root' op) with
    | ok op' =>
      exact absurd (Subject.ofOperation_inj (Subject.operation?_eq_ok_iff.1 h)).1.symm hne
    | error e => exact ⟨e, fun s around payload => s.answerSubject_of_error around payload h⟩
  · intro lookup c hc root
    have hroot : Config.isRoot root = true := Config.isRoot_of_ofLookup hc
    have hheard : ∀ op, Subject.matches? (Subject.all root) (Subject.ofOperation root op) = true := by
      intro op
      rw [Subject.matches?_all_iff hroot]
      exact ⟨op.text, op.dot_not_mem_text, rfl⟩
    refine ⟨hheard, fun subject hsubject => ?_⟩
    obtain ⟨name, -, rfl⟩ := (Subject.matches?_all_iff hroot).1 hsubject
    have hparse := Subject.operation?_heading root name
    cases hname : Operation.ofText name with
    | ok op =>
      rw [hname] at hparse
      exact .inl ⟨op, Subject.operation?_eq_ok_iff.1 hparse,
        fun s around payload => s.answerSubject_of_ok around payload hparse⟩
    | error e =>
      obtain ⟨rfl, hunknown⟩ := Operation.ofText_eq_error hname
      rw [hname] at hparse
      exact .inr ⟨name, hunknown,
        fun s around payload => s.answerSubject_of_error around payload hparse,
        SubjectError.message_ne name⟩

/-- A root that ends in the fixed token, in reach of another one. -/
theorem Service.routing_agrees_dotted :
    let lookup := fun key => if key = Config.subjectRootVariable then some "lab.subnet" else none
    let c : Config := { subjectRoot := "lab.subnet" }
    Config.ofLookup lookup = .ok c ∧
      (∃ e : SubjectError, ∀ (s : Service) around payload,
        s.answerSubject around "lab" (Subject.ofOperation "lab.subnet" .get) payload =
          ⟨.invalidRequest e.message, [], s⟩) ∧
      (Subject.matches? (Subject.all c.subjectRoot) "lab.subnet.subnet.list" = true ∧
        "lab.subnet.subnet.list" ≠ Subject.ofOperation c.subjectRoot .get) ∧
      ∃ name, ∀ (s : Service) around payload,
        s.answerSubject around c.subjectRoot "lab.subnet.subnet.list" payload =
          ⟨.invalidRequest (SubjectError.unknownOperation name).message, [], s⟩ := by
  intro lookup c
  have hc : Config.ofLookup lookup = .ok c :=
    Config.ofLookup_eq_ok_iff.2 ⟨rfl, rfl, rfl, rfl, rfl, by decide⟩
  have hheard : Subject.matches? (Subject.all c.subjectRoot) "lab.subnet.subnet.list" = true := by
    decide
  obtain ⟨-, hdistinct, hother, hconfigured⟩ := Service.routing_agrees
  refine ⟨hc, hother "lab" "lab.subnet" .get (by decide), ⟨hheard, by decide⟩, ?_⟩
  obtain ⟨op, hop, -⟩ | ⟨name, -, hrefused, -⟩ := (hconfigured lookup c hc).2 _ hheard
  · exact absurd hop (by cases op <;> decide)
  · exact ⟨name, hrefused⟩

end SubnetRegistry
