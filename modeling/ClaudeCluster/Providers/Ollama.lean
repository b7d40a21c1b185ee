import ClaudeCluster.Lib.Coercions
import ClaudeCluster.Lib.JsonPrefix
import ClaudeCluster.Lib.Pieces

/-!
# The stream of a local model

`OllamaProvider.stream` of `providers/ollama.ts`, from the response on: every
read of the body is decoded and split into lines, and each line is a chunk of
the answer. The decoder carries half a character over to the next read; half a
line is not carried over, but taken for a line.

So how the bytes come makes a difference. An answer is whole just where each of
its lines comes in one read, the last up to the end of its object, and the last
has no content besides (`answers_stream_iff`).
-/

namespace ClaudeCluster.Providers.OllamaProvider

open Lib (JsValue JsString own truthy)
open Lib.Pieces (Unbroken parts)
open Lib.Utf8 (encode Decoder)

-- ---------------------------------------------------------------------------
-- Lines
-- ---------------------------------------------------------------------------

structure StreamChunk where
  content : JsValue
  done : JsValue

inductive Thrown
  | error (message : String)
  /-- of `JSON.parse` -/
  | syntaxError
  /-- of a property of `null` -/
  | typeError

inductive Next
  | more
  | returned
  | threw (error : Thrown)

structure Outcome where
  chunks : List StreamChunk
  next : Next

namespace Outcome

def more : Outcome := ⟨[], .more⟩

def returned : Outcome := ⟨[], .returned⟩

def threw (error : Thrown) : Outcome := ⟨[], .threw error⟩

def andThen (o rest : Outcome) : Outcome :=
  match o.next with
  | .more => ⟨o.chunks ++ rest.chunks, rest.next⟩
  | _ => o

end Outcome

/-- `data.message?.content`, `none` where it throws. -/
def content (data : JsValue) : Option JsValue :=
  (own data "message").bind fun message =>
    match message with
    | .undefined => some .undefined
    | .null => some .undefined
    | message => own message "content"

/-- `{ content: '', done: true }` -/
def finalChunk : StreamChunk := ⟨.string [], .bool true⟩

/-- `if (data.message?.content) yield { content: data.message.content, done: data.done }` -/
def yielded (content done : JsValue) : List StreamChunk :=
  if truthy content then [⟨content, done⟩] else []

def readLine (line : List Char) : Outcome :=
  match Lib.Json.parse line with
  | none => .threw .syntaxError
  | some data =>
    match content data, own data "done" with
    | some content, some done =>
      if truthy done then ⟨yielded content done ++ [finalChunk], .returned⟩
      else ⟨yielded content done, .more⟩
    | _, _ => .threw .typeError

/-- `for (const line of lines)` -/
def readLines : List (List Char) → Outcome
  | [] => .more
  | line :: lines => (readLine line).andThen (readLines lines)

-- ---------------------------------------------------------------------------
-- Reads
-- ---------------------------------------------------------------------------

/-- A body is what its reader gives, read by read. -/
structure Response where
  status : Nat
  body : Option (List (List UInt8))

def Response.ok (r : Response) : Bool := 200 ≤ r.status && r.status ≤ 299

/-- `decoder.decode(value, { stream: true }).split('\n').filter(Boolean)`, read by read. -/
def readAll : Decoder → List (List UInt8) → Outcome
  | _, [] => .returned
  | decoder, value :: reads =>
    (readLines (parts '\n' (decoder.decode value).1)).andThen
      (readAll (decoder.decode value).2 reads)

def stream (response : Response) : Outcome :=
  match response.ok, response.body with
  | true, some reads => readAll {} reads
  | _, _ => .threw (.error ("Ollama API error: " ++ toString response.status))

-- ---------------------------------------------------------------------------
-- Answers
-- ---------------------------------------------------------------------------

structure Line where
  text : List Char
  assignments : List (JsString × JsValue)
  parsed : Lib.Json.parse text = some (.object assignments)
  single : '\n' ∉ text

namespace Line

def content (l : Line) : JsValue :=
  (OllamaProvider.content (.object l.assignments)).getD .undefined

def done (l : Line) : JsValue := (own (.object l.assignments) "done").getD .undefined

end Line

/-- A body in NDJSON, which says in its last line that it is done. -/
structure Ndjson where
  lines : List Line
  last : Line
  /-- The last line is ended too. -/
  newline : Bool
  unfinished : ∀ line ∈ lines, truthy line.done = false
  finished : last.done = .bool true

def upTo (lines : List Line) : List Char := lines.flatMap fun line => line.text ++ ['\n']

namespace Ndjson

def text (b : Ndjson) : List Char :=
  upTo b.lines ++ (b.last.text ++ if b.newline then ['\n'] else [])

def contents (b : Ndjson) : List JsValue :=
  ((b.lines ++ [b.last]).map Line.content).filter truthy ++ [.string []]

end Ndjson

/-- The outcome is the whole answer, with one chunk at its end that says so. -/
structure Answers (b : Ndjson) (o : Outcome) : Prop where
  kept : ∀ error, o.next ≠ .threw error
  contents : o.chunks.map StreamChunk.content = b.contents
  final : ∃ chunks last, o.chunks = chunks ++ [last] ∧ last.done = .bool true ∧
    ∀ chunk ∈ chunks, chunk.done ≠ .bool true

/-- Every line but the last comes whole, and of the last the text of its object. -/
structure Untorn (b : Ndjson) (Whole : List Char → List Char → Prop) : Prop where
  lines : ∀ start line rest, b.lines = start ++ line :: rest → Whole (upTo start) line.text
  last : ∃ object rest, b.last.text = object ++ rest ∧ (Lib.Json.parse object).isSome ∧
    Whole (upTo b.lines) object

def InOneRead (reads : List (List UInt8)) (start part : List Char) : Prop :=
  Unbroken reads (encode start).length (encode (start ++ part)).length

-- ---------------------------------------------------------------------------
-- Read by read
-- ---------------------------------------------------------------------------

namespace Outcome

@[simp]
theorem andThen_of_more (chunks : List StreamChunk) (rest : Outcome) :
    andThen ⟨chunks, .more⟩ rest = ⟨chunks ++ rest.chunks, rest.next⟩ := rfl

@[simp]
theorem andThen_of_returned (chunks : List StreamChunk) (rest : Outcome) :
    andThen ⟨chunks, .returned⟩ rest = ⟨chunks, .returned⟩ := rfl

@[simp]
theorem andThen_of_threw (chunks : List StreamChunk) (error : Thrown) (rest : Outcome) :
    andThen ⟨chunks, .threw error⟩ rest = ⟨chunks, .threw error⟩ := rfl

theorem andThen_assoc (o o' rest : Outcome) :
    (o.andThen o').andThen rest = o.andThen (o'.andThen rest) := by
  obtain ⟨chunks, next⟩ := o
  obtain ⟨chunks', next'⟩ := o'
  cases next with
  | more => cases next' <;> simp
  | returned => rfl
  | threw error => rfl

end Outcome

theorem readLines_append (lines lines' : List (List Char)) :
    readLines (lines ++ lines') = (readLines lines).andThen (readLines lines') := by
  induction lines with
  | nil => simp [readLines, Outcome.more]
  | cons line lines ih => rw [List.cons_append, readLines, readLines, ih, Outcome.andThen_assoc]

/-- What the reads come to: the lines of all the texts. -/
theorem readAll_eq (decoder : Decoder) (reads : List (List UInt8)) :
    readAll decoder reads =
      (readLines ((decoder.texts reads).flatMap (parts '\n'))).andThen .returned := by
  induction reads generalizing decoder with
  | nil => rfl
  | cons value reads ih =>
    rw [readAll, ih, Decoder.texts, List.flatMap_cons, readLines_append, Outcome.andThen_assoc]

-- ---------------------------------------------------------------------------
-- Line by line
-- ---------------------------------------------------------------------------

theorem content_object (es : List (JsString × JsValue)) : ∃ v, content (.object es) = some v := by
  rw [content, Lib.own_object, Option.bind_some]
  generalize (es.reverse.lookup (Lib.Utf16.ofText "message")).getD .undefined = message
  cases message with
  | object assignments => exact ⟨_, Lib.own_object assignments "content"⟩
  | _ => exact ⟨_, rfl⟩

section
variable {l : Line} {text : List Char}

namespace Line

theorem text_ne_nil (l : Line) : l.text ≠ [] := by
  obtain ⟨c, cs, hcs, _⟩ := Lib.Json.parse_object_head l.parsed
  rw [hcs]
  exact List.cons_ne_nil c cs

def chunks (l : Line) : List StreamChunk := yielded l.content l.done

theorem content_chunks (l : Line) :
    l.chunks.map StreamChunk.content = [l.content].filter truthy := by
  rw [chunks, yielded]
  split <;> simp_all

end Line

theorem readLine_of_parse (h : Lib.Json.parse text = some (.object l.assignments)) :
    readLine text =
      if truthy l.done then ⟨l.chunks ++ [finalChunk], .returned⟩ else ⟨l.chunks, .more⟩ := by
  obtain ⟨v, hv⟩ := content_object l.assignments
  rw [Line.chunks, Line.content, Line.done, readLine, h]
  simp only [hv, Lib.own_object, Option.getD_some]

theorem readLines_of_torn (h : Lib.Json.parse text = none) (lines : List (List Char)) :
    readLines (text :: lines) = .threw .syntaxError := by
  rw [readLines, readLine, h]
  rfl

/-- A line that comes in one piece is read, and another is not. -/
theorem readLines_line {pieces : List (List Char)} (hpieces : pieces.flatten = l.text)
    (hmore : truthy l.done = false) (lines : List (List Char)) :
    (Unbroken pieces 0 l.text.length →
      readLines (pieces.flatMap (parts '\n') ++ lines) =
        (⟨l.chunks, .more⟩ : Outcome).andThen (readLines lines)) ∧
    (¬Unbroken pieces 0 l.text.length →
      ∃ error, (readLines (pieces.flatMap (parts '\n') ++ lines)).next = .threw error) := by
  have hsingle : '\n' ∉ pieces.flatten := hpieces ▸ l.single
  obtain ⟨p, rest, hfilter, hp, hflatten, hrest, hunbroken⟩ :=
    Lib.Pieces.exists_first (hpieces ▸ l.text_ne_nil)
  rw [hpieces] at hflatten
  rw [Lib.Pieces.flatMap_parts hsingle, hfilter, hunbroken, hflatten, List.length_append]
  have hwhole := readLine_of_parse l.parsed
  rw [hmore] at hwhole
  cases rest with
  | nil =>
    rw [List.flatten_nil, List.append_nil] at hflatten
    refine ⟨fun _ => ?_, fun h => absurd (by simp) h⟩
    rw [List.singleton_append, readLines, ← hflatten, hwhole]
    rfl
  | cons q rest =>
    have hq := hrest q List.mem_cons_self
    have hlength := List.length_pos_of_ne_nil hq
    refine ⟨fun h => ?_, fun _ => ?_⟩
    · rw [List.flatten_cons, List.length_append] at h
      omega
    · cases hparse : Lib.Json.parse p with
      | none => exact ⟨_, congrArg Outcome.next (readLines_of_torn hparse _)⟩
      | some w =>
        -- the piece is the object, and what comes next is white space
        have hparsed := l.parsed
        rw [hflatten] at hparsed
        obtain ⟨rfl, hspace⟩ := Lib.Json.parse_prefix hparse hparsed
        have hread := readLine_of_parse hparse
        rw [hmore] at hread
        have hnone : Lib.Json.parse q = none := by
          refine Lib.Json.parse_space fun c hc => hspace c ?_
          rw [List.flatten_cons]
          exact List.mem_append_left _ hc
        refine ⟨.syntaxError, ?_⟩
        rw [List.cons_append, List.cons_append, readLines, hread, readLines_of_torn hnone]
        rfl

theorem readLines_last {pieces : List (List Char)} (hpieces : pieces.flatten = l.text)
    (hdone : l.done = .bool true) (lines : List (List Char)) :
    ((∃ object rest, l.text = object ++ rest ∧ (Lib.Json.parse object).isSome ∧
        Unbroken pieces 0 object.length) →
      readLines (pieces.flatMap (parts '\n') ++ lines) =
        ⟨l.chunks ++ [finalChunk], .returned⟩) ∧
    ((¬∃ object rest, l.text = object ++ rest ∧ (Lib.Json.parse object).isSome ∧
        Unbroken pieces 0 object.length) →
      ∃ error, (readLines (pieces.flatMap (parts '\n') ++ lines)).next = .threw error) := by
  have hsingle : '\n' ∉ pieces.flatten := hpieces ▸ l.single
  obtain ⟨p, rest, hfilter, hp, hflatten, hrest, hunbroken⟩ :=
    Lib.Pieces.exists_first (hpieces ▸ l.text_ne_nil)
  rw [hpieces] at hflatten
  simp only [Lib.Pieces.flatMap_parts hsingle, hfilter, hunbroken, List.cons_append]
  have hparsed := l.parsed
  constructor
  · rintro ⟨object, tail, htext, hsome, hlength⟩
    obtain ⟨w, hw⟩ := Option.isSome_iff_exists.mp hsome
    -- the piece is the object with some of the white space after it
    obtain ⟨space, rfl⟩ : object <+: p :=
      List.prefix_of_prefix_length_le ⟨tail, htext.symm⟩ ⟨rest.flatten, hflatten.symm⟩ hlength
    rw [hflatten, List.append_assoc] at hparsed
    obtain ⟨rfl, hspace⟩ := Lib.Json.parse_prefix hw hparsed
    have hread := readLine_of_parse
      (Lib.Json.parse_append_space hw fun c hc => hspace c (List.mem_append_left _ hc))
    rw [hdone] at hread
    rw [readLines, hread]
    rfl
  · intro hnone
    cases hparse : Lib.Json.parse p with
    | none => exact ⟨_, congrArg Outcome.next (readLines_of_torn hparse _)⟩
    | some w =>
      exact absurd ⟨p, rest.flatten, hflatten, by rw [hparse]; rfl, le_rfl⟩ hnone

end

-- ---------------------------------------------------------------------------
-- The answer
-- ---------------------------------------------------------------------------

theorem not_answers_of_threw {b : Ndjson} {o : Outcome} {error : Thrown}
    (h : o.next = .threw error) (rest : Outcome) : ¬Answers b (o.andThen rest) := by
  obtain ⟨chunks, next⟩ := o
  subst h
  exact fun hanswers => hanswers.kept error rfl

theorem done_of_mem_chunks {l : Line} (hmore : truthy l.done = false) :
    ∀ chunk ∈ l.chunks, chunk.done ≠ .bool true := by
  intro chunk hchunk hdone
  rw [Line.chunks, yielded] at hchunk
  split at hchunk
  · obtain rfl := List.mem_singleton.mp hchunk
    dsimp only at hdone
    rw [hdone] at hmore
    cases hmore
  · cases hchunk

theorem answers_cons {b b' : Ndjson} {l : Line} (hlines : b.lines = l :: b'.lines)
    (hlast : b.last = b'.last) (hmore : truthy l.done = false) (o : Outcome) :
    Answers b ((⟨l.chunks, .more⟩ : Outcome).andThen o) ↔ Answers b' o := by
  have hcontents : b.contents = [l.content].filter truthy ++ b'.contents := by
    rw [Ndjson.contents, Ndjson.contents, hlines, hlast, List.cons_append, List.map_cons,
      ← List.singleton_append, List.filter_append, List.append_assoc]
  have hmap : (l.chunks ++ o.chunks).map StreamChunk.content = b.contents ↔
      o.chunks.map StreamChunk.content = b'.contents := by
    rw [List.map_append, l.content_chunks, hcontents, List.append_cancel_left_eq]
  have hdone := done_of_mem_chunks hmore
  constructor
  · rintro ⟨hkept, hchunks, chunks, last, heq, hlastDone, hbefore⟩
    refine ⟨hkept, hmap.mp hchunks, ?_⟩
    dsimp only [Outcome.andThen_of_more] at heq
    rcases List.eq_nil_or_concat o.chunks with hnil | ⟨os, c, hos⟩
    · rw [hnil, List.append_nil] at heq
      exact absurd hlastDone (hdone last (by simp [heq]))
    · rw [List.concat_eq_append] at hos
      rw [hos, ← List.append_assoc] at heq
      obtain ⟨rfl, hc⟩ := List.append_inj' heq rfl
      obtain rfl := List.singleton_inj.mp hc
      exact ⟨os, c, hos, hlastDone, fun chunk hchunk => hbefore chunk (List.mem_append_right _ hchunk)⟩
  · rintro ⟨hkept, hchunks, chunks, last, heq, hlastDone, hbefore⟩
    refine ⟨hkept, hmap.mpr hchunks, l.chunks ++ chunks, last, ?_, hlastDone, ?_⟩
    · rw [Outcome.andThen_of_more, heq, List.append_assoc]
    · exact List.forall_mem_append.mpr ⟨hdone, hbefore⟩

/-- A last line with a content of its own says twice that it is done. -/
theorem answers_last {b : Ndjson} (hlines : b.lines = []) :
    Answers b ⟨b.last.chunks ++ [finalChunk], .returned⟩ ↔ truthy b.last.content = false := by
  have hchunks : b.last.chunks = yielded b.last.content (.bool true) := by
    rw [Line.chunks, b.finished]
  constructor
  · rintro ⟨_, _, chunks, last, heq, _, hbefore⟩
    obtain ⟨rfl, _⟩ := List.append_inj' heq rfl
    cases hcontent : truthy b.last.content with
    | false => rfl
    | true =>
      rw [hchunks, yielded, if_pos hcontent] at hbefore
      exact absurd rfl (hbefore _ List.mem_cons_self)
  · intro hcontent
    refine ⟨fun _ h => ?_, ?_, b.last.chunks, finalChunk, rfl, rfl, ?_⟩
    · cases h
    · rw [List.map_append, Line.content_chunks, Ndjson.contents, hlines]
      rfl
    · rw [hchunks, yielded, hcontent]
      exact List.forall_mem_nil _

theorem upTo_cons (l : Line) (lines : List Line) :
    upTo (l :: lines) = l.text ++ '\n' :: upTo lines := by
  rw [upTo, List.flatMap_cons, List.append_assoc]
  rfl

section
variable {b b' : Ndjson} {l : Line} {pieces ps qs : List (List Char)}

theorem untorn_cons (hlines : b.lines = l :: b'.lines) (hlast : b.last = b'.last)
    (hps : ps.flatten = l.text) (hsplit : Lib.Pieces.Split '\n' pieces ps qs) :
    Untorn b (fun start part => Unbroken pieces start.length (start.length + part.length)) ↔
      Unbroken ps 0 l.text.length ∧
        Untorn b' fun start part => Unbroken qs start.length (start.length + part.length) := by
  have hbefore : Unbroken pieces 0 l.text.length ↔ Unbroken ps 0 l.text.length :=
    hsplit.before 0 _ (by rw [hps])
  have hafter : ∀ start part : List Char,
      Unbroken pieces (l.text ++ '\n' :: start).length
          ((l.text ++ '\n' :: start).length + part.length) ↔
        Unbroken qs start.length (start.length + part.length) := by
    intro start part
    have hlength : (l.text ++ '\n' :: start).length = ps.flatten.length + 1 + start.length := by
      rw [List.length_append, List.length_cons, hps]
      omega
    rw [hlength, Nat.add_assoc (_ + 1)]
    exact hsplit.after _ _
  constructor
  · rintro ⟨hwhole, object, rest, htext, hsome, hobject⟩
    refine ⟨hbefore.mp ?_, fun start line rest h => ?_, object, rest, hlast ▸ htext, hsome, ?_⟩
    · simpa [upTo] using hwhole [] l b'.lines hlines
    · have hline := hwhole (l :: start) line rest (by rw [hlines, h]; rfl)
      rwa [upTo_cons, hafter] at hline
    · rwa [hlines, upTo_cons, hafter] at hobject
  · rintro ⟨hfirst, hwhole, object, rest, htext, hsome, hobject⟩
    refine ⟨fun start line rest h => ?_, object, rest, hlast ▸ htext, hsome, ?_⟩
    · rw [hlines] at h
      cases start with
      | nil =>
        cases h
        simpa [upTo] using hbefore.mpr hfirst
      | cons x start =>
        obtain ⟨rfl, hrest⟩ := List.cons.inj h
        rw [upTo_cons, hafter]
        exact hwhole start line rest hrest
    · rw [hlines, upTo_cons, hafter]
      exact hobject

theorem exists_last_pieces (hpieces : pieces.flatten = b.text) (hlines : b.lines = []) :
    ∃ front after : List (List Char), front.flatten = b.last.text ∧
      pieces.flatMap (parts '\n') = front.flatMap (parts '\n') ++ after ∧
      ∀ start stop, stop ≤ b.last.text.length →
        (Unbroken pieces start stop ↔ Unbroken front start stop) := by
  rw [Ndjson.text, hlines] at hpieces
  cases hnewline : b.newline with
  | true =>
    rw [hnewline] at hpieces
    obtain ⟨ps, qs, hps, _, hsplit⟩ := Lib.Pieces.exists_split hpieces
    exact ⟨ps, _, hps, hsplit.parts, fun start stop h => hsplit.before start stop (hps ▸ h)⟩
  | false =>
    rw [hnewline] at hpieces
    refine ⟨pieces, [], ?_, (List.append_nil _).symm, fun _ _ _ => Iff.rfl⟩
    simpa [upTo] using hpieces

theorem untorn_nil {front : List (List Char)} (hlines : b.lines = [])
    (hunbroken : ∀ start stop, stop ≤ b.last.text.length →
      (Unbroken pieces start stop ↔ Unbroken front start stop)) :
    Untorn b (fun start part => Unbroken pieces start.length (start.length + part.length)) ↔
      ∃ object rest, b.last.text = object ++ rest ∧ (Lib.Json.parse object).isSome ∧
        Unbroken front 0 object.length := by
  have hplace : ∀ object rest, b.last.text = object ++ rest →
      (Unbroken pieces (upTo b.lines).length ((upTo b.lines).length + object.length) ↔
        Unbroken front 0 object.length) := by
    intro object rest htext
    have hle : object.length ≤ b.last.text.length := by
      rw [htext, List.length_append]
      exact Nat.le_add_right _ _
    rw [← hunbroken 0 _ hle, hlines]
    simp [upTo]
  constructor
  · rintro ⟨_, object, rest, htext, hsome, hobject⟩
    exact ⟨object, rest, htext, hsome, (hplace object rest htext).mp hobject⟩
  · rintro ⟨object, rest, htext, hsome, hobject⟩
    refine ⟨fun start line rest h => ?_, object, rest, htext, hsome,
      (hplace object rest htext).mpr hobject⟩
    rw [hlines] at h
    simp at h

theorem answers_readLines (hpieces : pieces.flatten = b.text) :
    Answers b ((readLines (pieces.flatMap (parts '\n'))).andThen .returned) ↔
      truthy b.last.content = false ∧
        Untorn b fun start part => Unbroken pieces start.length (start.length + part.length) := by
  induction hlines : b.lines generalizing b pieces with
  | nil =>
    obtain ⟨front, after, hfront, hparts, hunbroken⟩ := exists_last_pieces hpieces hlines
    obtain ⟨hread, htorn⟩ := readLines_last hfront b.finished after
    have huntorn := untorn_nil hlines hunbroken
    rw [huntorn, hparts]
    by_cases hwhole : ∃ object rest, b.last.text = object ++ rest ∧
        (Lib.Json.parse object).isSome ∧ Unbroken front 0 object.length
    · rw [hread hwhole, Outcome.andThen_of_returned, answers_last hlines]
      exact (and_iff_left hwhole).symm
    · obtain ⟨error, herror⟩ := htorn hwhole
      exact iff_of_false (not_answers_of_threw herror _) fun h => hwhole h.2
  | cons l lines ih =>
    have hmore : truthy l.done = false := b.unfinished l (hlines ▸ List.mem_cons_self)
    let b' : Ndjson := {
      lines := lines
      last := b.last
      newline := b.newline
      unfinished := fun x hx => b.unfinished x (hlines ▸ List.mem_cons_of_mem _ hx)
      finished := b.finished }
    have htext : b.text = l.text ++ '\n' :: b'.text := by
      rw [Ndjson.text, hlines, upTo_cons, List.append_assoc]
      rfl
    obtain ⟨ps, qs, hps, hqs, hsplit⟩ := Lib.Pieces.exists_split (hpieces.trans htext)
    obtain ⟨hread, htorn⟩ := readLines_line hps hmore (qs.flatMap (parts '\n'))
    have hlines' : b.lines = l :: b'.lines := hlines
    have huntorn := untorn_cons hlines' rfl hps hsplit
    rw [huntorn, hsplit.parts]
    by_cases hwhole : Unbroken ps 0 l.text.length
    · rw [hread hwhole, Outcome.andThen_assoc, answers_cons hlines' rfl hmore, ih hqs rfl]
      exact and_congr_right fun _ => (and_iff_right hwhole).symm
    · obtain ⟨error, herror⟩ := htorn hwhole
      exact iff_of_false (not_answers_of_threw herror _) fun h => hwhole h.2.1

end

-- ---------------------------------------------------------------------------
-- Bytes
-- ---------------------------------------------------------------------------

def Ascii (text : List Char) : Prop := ∃ c cs, text = c :: cs ∧ c.toNat < 0x80

theorem Line.ascii (l : Line) : Ascii l.text := by
  obtain ⟨c, cs, hcs, hc⟩ := Lib.Json.parse_object_head l.parsed
  refine ⟨c, cs, hcs, ?_⟩
  rcases hc with hspace | rfl
  · simp only [Lib.Json.isSpace, Bool.or_eq_true, decide_eq_true_eq] at hspace
    rcases hspace with ((rfl | rfl) | rfl) | rfl <;> decide
  · decide

section
variable {b : Ndjson} {start part rest : List Char} {reads : List (List UInt8)}

theorem Ndjson.ascii (b : Ndjson) : Ascii b.text := by
  have hfirst : ∃ l : Line, ∃ after, b.text = l.text ++ after := by
    rw [Ndjson.text]
    cases b.lines with
    | nil => exact ⟨b.last, _, rfl⟩
    | cons l lines => exact ⟨l, _, by rw [upTo_cons, List.append_assoc]⟩
  obtain ⟨l, after, htext⟩ := hfirst
  obtain ⟨c, cs, hcs, hc⟩ := l.ascii
  exact ⟨c, cs ++ after, by rw [htext, hcs]; rfl, hc⟩

/-- In the texts of the reads a part is whole just where it is in the bytes. -/
theorem inOneRead_iff (htext : b.text = start ++ (part ++ rest)) (hascii : Ascii part)
    (hreads : reads.flatten = encode b.text) :
    InOneRead reads start part ↔
      Unbroken (({} : Decoder).texts reads) start.length (start.length + part.length) := by
  obtain ⟨c, cs, rfl, hc⟩ := hascii
  refine forall_congr' fun n => ?_
  have hbytes : (reads.take n).flatten ++ (reads.drop n).flatten = encode b.text := by
    rw [← List.flatten_append, List.take_append_drop, hreads]
  have hprefix := Lib.Utf8.stream_prefix hbytes
  have hbom : (Lib.Utf8.stream none (reads.take n).flatten).1.head? ≠
      some Lib.Utf8.byteOrderMark := by
    obtain ⟨c, cs, hcs, hc⟩ := b.ascii
    rw [hcs] at hprefix
    intro hhead
    obtain ⟨tail, htail⟩ := List.head?_eq_some_iff.mp hhead
    rw [htail] at hprefix
    obtain rfl := (List.cons_prefix_cons.mp hprefix).1
    exact absurd hc (by decide)
  have htexts : ((({} : Decoder).texts reads).take n).flatten =
      (Lib.Utf8.stream none (reads.take n).flatten).1 := by
    rw [Decoder.take_texts]
    exact Decoder.flatten_texts _ _ (.inr hbom)
  -- up to the end of the part, and up to its first character
  have hstop := Lib.Utf8.length_encode_le_iff
    (show _ = encode (start ++ c :: cs ++ rest) by rw [hbytes, htext, List.append_assoc])
  have hstart := Lib.Utf8.length_encode_le_iff
    (show _ = encode (start ++ [c] ++ (cs ++ rest)) by
      rw [hbytes, htext, List.append_assoc]; rfl)
  rw [Lib.Utf8.encode_append start [c], List.length_append, List.length_append,
    Lib.Utf8.length_encode_ascii hc, List.length_singleton] at hstart
  rw [List.length_append] at hstop
  rw [htexts, hstop]
  omega

theorem upTo_append (lines lines' : List Line) : upTo (lines ++ lines') = upTo lines ++ upTo lines' :=
  List.flatMap_append

theorem untorn_congr {Whole Whole' : List Char → List Char → Prop}
    (h : ∀ start part rest, b.text = start ++ (part ++ rest) → Ascii part →
      (Whole start part ↔ Whole' start part)) : Untorn b Whole ↔ Untorn b Whole' := by
  have hline : ∀ start line rest, b.lines = start ++ line :: rest →
      (Whole (upTo start) line.text ↔ Whole' (upTo start) line.text) := by
    intro start line rest hlines
    refine h _ _ ('\n' :: upTo rest ++ (b.last.text ++ if b.newline then ['\n'] else [])) ?_ line.ascii
    rw [Ndjson.text, hlines, upTo_append, upTo_cons]
    simp only [List.append_assoc, List.cons_append]
  have hlast : ∀ object rest, b.last.text = object ++ rest → (Lib.Json.parse object).isSome →
      (Whole (upTo b.lines) object ↔ Whole' (upTo b.lines) object) := by
    intro object rest htext hsome
    refine h _ _ (rest ++ if b.newline then ['\n'] else []) ?_ ?_
    · rw [Ndjson.text, htext, List.append_assoc]
    · obtain ⟨c, cs, hcs, hc⟩ := b.last.ascii
      cases object with
      | nil => cases hsome
      | cons d ds =>
        rw [htext] at hcs
        obtain rfl := (List.cons.inj hcs).1
        exact ⟨d, ds, rfl, hc⟩
  constructor
  · rintro ⟨hlines, object, rest, htext, hsome, hobject⟩
    exact ⟨fun start line rest hl => (hline start line rest hl).mp (hlines start line rest hl),
      object, rest, htext, hsome, (hlast object rest htext hsome).mp hobject⟩
  · rintro ⟨hlines, object, rest, htext, hsome, hobject⟩
    exact ⟨fun start line rest hl => (hline start line rest hl).mpr (hlines start line rest hl),
      object, rest, htext, hsome, (hlast object rest htext hsome).mpr hobject⟩

/-- An answer comes out whole just where each line but the last comes in one read, the last one
as far as its object goes, and where that has no content. -/
theorem answers_stream_iff (b : Ndjson) (reads : List (List UInt8))
    (h : reads.flatten = encode b.text) (status : Nat) (hok : 200 ≤ status ∧ status ≤ 299) :
    Answers b (stream { status := status, body := some reads }) ↔
      truthy b.last.content = false ∧ Untorn b (InOneRead reads) := by
  have hstream : stream { status := status, body := some reads } = readAll {} reads := by
    simp [stream, Response.ok, hok]
  have htexts : (({} : Decoder).texts reads).flatten = b.text := by
    have hdecoded : (Lib.Utf8.stream none reads.flatten).1 = b.text := by
      rw [h, Lib.Utf8.stream_encode]
    refine (Decoder.flatten_texts _ _ (.inr ?_)).trans hdecoded
    obtain ⟨c, cs, hcs, hc⟩ := b.ascii
    rw [hdecoded, hcs]
    rintro ⟨⟩
    exact absurd hc (by decide)
  rw [hstream, readAll_eq, answers_readLines htexts]
  exact and_congr_right fun _ =>
    untorn_congr fun start part rest htext hascii => (inOneRead_iff htext hascii h).symm

end

def twoLines : Ndjson where
  lines := [{
    text := "\x7b\"message\":\x7b\"content\":\"é\"\x7d\x7d".toList
    assignments := [(Lib.Utf16.ofText "message",
      .object [(Lib.Utf16.ofText "content", .string [0xe9])])]
    parsed := rfl
    single := by decide }]
  last := {
    text := "\x7b\"done\":true\x7d".toList
    assignments := [(Lib.Utf16.ofText "done", .bool true)]
    parsed := rfl
    single := by decide }
  newline := false
  unfinished := by
    intro line hline
    obtain rfl := List.mem_singleton.mp hline
    rfl
  finished := rfl

theorem answers_twoLines :
    Answers twoLines (stream {
      status := 200
      body := some [
        encode "\x7b\"message\":\x7b\"content\":\"é\"\x7d\x7d".toList,
        encode "\n\x7b\"done\":true\x7d".toList] }) := by
  refine (answers_stream_iff twoLines _ (by rfl) 200 (by decide)).mpr ⟨rfl, ?_, ?_⟩
  · intro start line rest hlines
    cases start with
    | nil =>
      cases hlines
      exact Lib.Pieces.unbroken_cons.mpr ⟨.inr (by decide), Lib.Pieces.unbroken_zero⟩
    | cons l start =>
      have htail := (List.cons.inj hlines).2
      simp at htail
  · refine ⟨_, [], (List.append_nil _).symm, rfl, ?_⟩
    refine Lib.Pieces.unbroken_cons.mpr ⟨.inl (by decide), Lib.Pieces.unbroken_cons.mpr ⟨.inr ?_, ?_⟩⟩
    · decide
    · exact Lib.Pieces.unbroken_zero

/-- A read that ends inside the object of a line is taken for a line. -/
theorem torn_object :
    [encode "\x7b\"message\":".toList, encode
        "\x7b\"content\":\"é\"\x7d\x7d\n\x7b\"done\":true\x7d".toList].flatten =
      encode twoLines.text ∧
    ¬Answers twoLines (stream {
      status := 200
      body := some [encode "\x7b\"message\":".toList, encode
        "\x7b\"content\":\"é\"\x7d\x7d\n\x7b\"done\":true\x7d".toList] }) :=
  ⟨by decide +kernel, fun h => h.kept .syntaxError rfl⟩

end ClaudeCluster.Providers.OllamaProvider
