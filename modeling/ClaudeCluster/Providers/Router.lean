import ClaudeCluster.Lib.Utf16

/-!
# The provider router

`ProviderRouter` of `providers/router.ts`: the primary provider and then the
fallbacks are asked one after the other, and the first that does not throw
answers. A provider's `stream` is what it does until it is through: the chunks
it yields, and what it throws after them, if it throws.

`stream` falls back as `chat` does (`thrown_stream`), but by then the chunks of
the provider that failed have been handed out. It is the plain call in parts
just where no provider that fails has yielded anything (`atomic_iff_quiet`).
-/

namespace ClaudeCluster.Providers

open Lib (JsString)
open Lib.Utf16 (ofText)

-- ---------------------------------------------------------------------------
-- Providers
-- ---------------------------------------------------------------------------

/-- What a `catch` is given: an `Error` with its message, or anything else as
`String(error)` prints it. -/
inductive Thrown
  | error (message : JsString)
  | value (text : JsString)
  deriving DecidableEq, Repr

/-- `error instanceof Error ? error : new Error(String(error))`, and its message. -/
def Thrown.message : Thrown → JsString
  | .error message => message
  | .value text => text

structure StreamChunk where
  content : JsString
  done : Bool
  deriving DecidableEq, Repr

structure Streamed where
  chunks : List StreamChunk
  thrown : Option Thrown := none
  deriving DecidableEq, Repr

def Streamed.collect (s : Streamed) : Except Thrown (List StreamChunk) :=
  match s.thrown with
  | none => .ok s.chunks
  | some error => .error error

structure LLMProvider (Request Response : Type) where
  name : JsString
  chat : Request → Except Thrown Response
  stream : Request → Streamed

namespace LLMProvider

variable {Request Response : Type}

def Fails (p : LLMProvider Request Response) (request : Request) : Prop :=
  (p.stream request).thrown ≠ none

instance (p : LLMProvider Request Response) (request : Request) : Decidable (p.Fails request) :=
  inferInstanceAs (Decidable (¬_))

/-- The provider whose plain call answers with the whole of its stream. -/
def collecting (p : LLMProvider Request Response) :
    LLMProvider Request (List StreamChunk) where
  name := p.name
  chat request := (p.stream request).collect
  stream := p.stream

end LLMProvider

-- ---------------------------------------------------------------------------
-- The router
-- ---------------------------------------------------------------------------

structure ProviderRouter (Request Response : Type) where
  primary : LLMProvider Request Response
  fallback : List (LLMProvider Request Response)

namespace ProviderRouter

variable {Request Response : Type}

def providers (router : ProviderRouter Request Response) : List (LLMProvider Request Response) :=
  router.primary :: router.fallback

/-- `errors.map(e => e.message).join('; ')` under its heading. -/
def allFailed (errors : List Thrown) : Thrown :=
  .error (ofText "All providers failed: " ++
    List.intercalate (ofText "; ") (errors.map Thrown.message))

def chatFrom (request : Request) :
    List (LLMProvider Request Response) → List Thrown → Except Thrown Response
  | [], errors => .error (allFailed errors)
  | provider :: rest, errors =>
    match provider.chat request with
    | .ok response => .ok response
    | .error error => chatFrom request rest (errors ++ [error])

def chat (router : ProviderRouter Request Response) (request : Request) :
    Except Thrown Response :=
  chatFrom request router.providers []

/-- The loop of `stream` from a provider on: `yield*` hands every chunk out as it comes. -/
def streamFrom (request : Request) :
    List (LLMProvider Request Response) → List Thrown → Streamed
  | [], errors => { chunks := [], thrown := some (allFailed errors) }
  | provider :: rest, errors =>
    let own := provider.stream request
    match own.thrown with
    | none => own
    | some error =>
      let later := streamFrom request rest (errors ++ [error])
      { chunks := own.chunks ++ later.chunks, thrown := later.thrown }

def stream (router : ProviderRouter Request Response) (request : Request) : Streamed :=
  streamFrom request router.providers []

/-- The router over the same providers, each asked for the whole of its stream. -/
def collecting (router : ProviderRouter Request Response) :
    ProviderRouter Request (List StreamChunk) where
  primary := router.primary.collecting
  fallback := router.fallback.map LLMProvider.collecting

def FirstToSucceed (router : ProviderRouter Request Response) (request : Request)
    (tried : List (LLMProvider Request Response)) (provider : LLMProvider Request Response) :
    Prop :=
  tried ++ [provider] <+: router.providers ∧ (∀ p ∈ tried, p.Fails request) ∧
    ¬provider.Fails request

/-- A stream that completes has yielded what the provider that succeeded yields and
nothing else, and one that throws has seen every provider fail. -/
def Atomic (router : ProviderRouter Request Response) (request : Request) : Prop :=
  ((router.stream request).thrown = none → ∃ tried provider,
    router.FirstToSucceed request tried provider ∧
      (router.stream request).chunks = (provider.stream request).chunks) ∧
  ((router.stream request).thrown ≠ none → ∀ p ∈ router.providers, p.Fails request)

/-- No provider that is tried before the one that succeeds has yielded a chunk. -/
def QuietUntilSuccess (router : ProviderRouter Request Response) (request : Request) : Prop :=
  ∀ tried provider, router.FirstToSucceed request tried provider →
    ∀ p ∈ tried, (p.stream request).chunks = []

-- ---------------------------------------------------------------------------
-- What the loops come to
-- ---------------------------------------------------------------------------

theorem streamFrom_append {request : Request}
    {tried : List (LLMProvider Request Response)} (htried : ∀ p ∈ tried, p.Fails request)
    (rest : List (LLMProvider Request Response)) (errors : List Thrown) :
    streamFrom request (tried ++ rest) errors =
      let later := streamFrom request rest
        (errors ++ tried.filterMap fun p => (p.stream request).thrown)
      { chunks := tried.flatMap (fun p => (p.stream request).chunks) ++ later.chunks
        thrown := later.thrown } := by
  induction tried generalizing errors with
  | nil => simp
  | cons p tried ih =>
    obtain ⟨error, herror⟩ := Option.ne_none_iff_exists'.mp (htried p List.mem_cons_self)
    have hrest := ih (fun q hq => htried q (List.mem_cons_of_mem _ hq)) (errors ++ [error])
    simp [streamFrom, herror, hrest]

theorem streamFrom_of_not_fails {request : Request} {p : LLMProvider Request Response}
    (h : ¬p.Fails request) (rest : List (LLMProvider Request Response)) (errors : List Thrown) :
    streamFrom request (p :: rest) errors = p.stream request := by
  have hnone : (p.stream request).thrown = none := Decidable.not_not.mp h
  simp [streamFrom, hnone]

theorem all_fail_or_first (request : Request) (chain : List (LLMProvider Request Response)) :
    (∀ p ∈ chain, p.Fails request) ∨
      ∃ tried p rest, chain = tried ++ p :: rest ∧ (∀ q ∈ tried, q.Fails request) ∧
        ¬p.Fails request := by
  induction chain with
  | nil => exact .inl (by simp)
  | cons p chain ih =>
    by_cases hp : p.Fails request
    · obtain hall | ⟨tried, q, rest, rfl, htried, hq⟩ := ih
      · exact .inl (List.forall_mem_cons.mpr ⟨hp, hall⟩)
      · exact .inr ⟨p :: tried, q, rest, rfl, List.forall_mem_cons.mpr ⟨hp, htried⟩, hq⟩
    · exact .inr ⟨[], p, chain, rfl, by simp, hp⟩

section
variable {router : ProviderRouter Request Response} {request : Request}
  {tried : List (LLMProvider Request Response)} {p : LLMProvider Request Response}

theorem FirstToSucceed.unique {tried' : List (LLMProvider Request Response)}
    {p' : LLMProvider Request Response} (h : router.FirstToSucceed request tried p)
    (h' : router.FirstToSucceed request tried' p') : tried = tried' ∧ p = p' := by
  obtain ⟨⟨rest, hrest⟩, htried, hp⟩ := h
  obtain ⟨⟨rest', hrest'⟩, htried', hp'⟩ := h'
  have heq : tried ++ p :: rest = tried' ++ p' :: rest' := by
    simpa using hrest.trans hrest'.symm
  rw [List.append_eq_append_iff] at heq
  obtain ⟨more, rfl, hmore⟩ | ⟨more, rfl, hmore⟩ := heq
  · cases more with
    | nil => simp_all
    | cons q more =>
      cases hmore
      exact absurd (htried' p (by simp)) hp
  · cases more with
    | nil => simp_all
    | cons q more =>
      cases hmore
      exact absurd (htried p' (by simp)) hp'

/-- What has been yielded when the stream completes. -/
theorem stream_of_firstToSucceed (h : router.FirstToSucceed request tried p) :
    router.stream request =
      { chunks := tried.flatMap (fun q => (q.stream request).chunks) ++
          (p.stream request).chunks } := by
  obtain ⟨⟨rest, hrest⟩, htried, hp⟩ := h
  have hnone : (p.stream request).thrown = none := Decidable.not_not.mp hp
  rw [stream, ← hrest, List.append_assoc, List.singleton_append, streamFrom_append htried,
    streamFrom_of_not_fails hp]
  simp [hnone]

theorem stream_of_all_fail (h : ∀ p ∈ router.providers, p.Fails request) :
    router.stream request =
      { chunks := router.providers.flatMap fun p => (p.stream request).chunks
        thrown := some (allFailed
          (router.providers.filterMap fun p => (p.stream request).thrown)) } := by
  have happend := streamFrom_append h [] []
  simpa [stream, streamFrom] using happend

end

theorem cases_stream (router : ProviderRouter Request Response) (request : Request) :
    (∀ p ∈ router.providers, p.Fails request) ∨
      ∃ tried p, router.FirstToSucceed request tried p := by
  obtain hall | ⟨tried, p, rest, heq, htried, hp⟩ := all_fail_or_first request router.providers
  · exact .inl hall
  · exact .inr ⟨tried, p, ⟨rest, by simp [heq]⟩, htried, hp⟩

-- ---------------------------------------------------------------------------
-- The plain call and the stream
-- ---------------------------------------------------------------------------

theorem chatFrom_collecting (request : Request) (chain : List (LLMProvider Request Response))
    (errors : List Thrown) :
    (chatFrom request (chain.map LLMProvider.collecting) errors).toOption.isSome =
        (streamFrom request chain errors).thrown.isNone ∧
      ∀ error, chatFrom request (chain.map LLMProvider.collecting) errors = .error error ↔
        (streamFrom request chain errors).thrown = some error := by
  induction chain generalizing errors with
  | nil => simp [chatFrom, streamFrom, Except.toOption]
  | cons p chain ih =>
    cases hthrown : (p.stream request).thrown with
    | none =>
      simp [chatFrom, streamFrom, LLMProvider.collecting, Streamed.collect, hthrown,
        Except.toOption]
    | some error =>
      simpa [chatFrom, streamFrom, LLMProvider.collecting, Streamed.collect, hthrown]
        using ih (errors ++ [error])

/-- Both paths fall back alike: the stream throws what the plain call would. -/
theorem thrown_stream (router : ProviderRouter Request Response) (request : Request)
    (error : Thrown) :
    (router.stream request).thrown = some error ↔
      router.collecting.chat request = .error error :=
  ((chatFrom_collecting request router.providers []).2 error).symm

/-- The law between the two paths: the stream yields what the plain call answers, and
nothing in front of it, just where the providers it tried before had yielded nothing. -/
theorem atomic_iff_quiet (router : ProviderRouter Request Response) (request : Request) :
    router.Atomic request ↔ router.QuietUntilSuccess request := by
  obtain hall | ⟨tried, p, hfirst⟩ := router.cases_stream request
  · have hstream := stream_of_all_fail hall
    constructor
    · rintro _ tried p ⟨⟨rest, hrest⟩, _, hp⟩
      exact absurd (hall p (by simp [← hrest])) hp
    · intro _
      exact ⟨by simp [hstream], fun _ => hall⟩
  · have hstream := stream_of_firstToSucceed hfirst
    constructor
    · rintro ⟨hdone, _⟩ tried' p' hfirst'
      obtain ⟨rfl, rfl⟩ := hfirst.unique hfirst'
      obtain ⟨tried', p', hfirst', hchunks⟩ := hdone (by simp [hstream])
      obtain ⟨rfl, rfl⟩ := hfirst.unique hfirst'
      simpa [hstream] using hchunks
    · intro hquiet
      refine ⟨fun _ => ⟨tried, p, hfirst, ?_⟩, by simp [hstream]⟩
      simpa [hstream] using hquiet tried p hfirst

def cutOff : LLMProvider Unit Unit where
  name := ofText "anthropic"
  chat _ := .error (.error (ofText "overloaded"))
  stream _ :=
    { chunks := [{ content := ofText "The ans", done := false }]
      thrown := some (.error (ofText "overloaded")) }

def whole : LLMProvider Unit Unit where
  name := ofText "ollama"
  chat _ := .ok ()
  stream _ :=
    { chunks := [{ content := ofText "42", done := false }, { content := [], done := true }] }

/-- Half an answer of the one in front of the answer of the other. -/
theorem half_an_answer_in_front :
    ¬({ primary := cutOff, fallback := [whole] } : ProviderRouter Unit Unit).Atomic () := by
  rintro ⟨hdone, _⟩
  obtain ⟨tried, p, ⟨htried, _, _⟩, hchunks⟩ := hdone (by decide)
  have hmem : p = cutOff ∨ p = whole := by
    simpa [providers] using htried.subset (by simp : p ∈ tried ++ [p])
  obtain rfl | rfl := hmem
  · exact absurd hchunks (by decide)
  · exact absurd hchunks (by decide)

end ProviderRouter

end ClaudeCluster.Providers
