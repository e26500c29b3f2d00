import Mathlib.Data.List.DropRight
import TinyLord.Lib.Lines
import TinyLord.Realtime.Frames

/-!
# The browser client's event parser

`readEventStream` reads the text of a response in chunks. A line sets a field of the next event, and
an empty line yields that event.
-/

open Lib.Lines

namespace TinyLord.Realtime

/-! ## The parser -/

/-- The white space and the line ends that `trim` removes. -/
def jsSpaces : List Nat :=
  [9, 10, 11, 12, 13, 32, 0xA0, 0x1680, 0x2000, 0x2001, 0x2002, 0x2003, 0x2004, 0x2005, 0x2006,
    0x2007, 0x2008, 0x2009, 0x200A, 0x2028, 0x2029, 0x202F, 0x205F, 0x3000, 0xFEFF]

def isJsSpace (c : Char) : Bool := jsSpaces.contains c.toNat

def trimStart (t : Chars) : Chars := t.dropWhile isJsSpace

def trim (t : Chars) : Chars := (trimStart t).rdropWhile isJsSpace

/-- `replace(/\r$/, "")` -/
def stripCr (line : Chars) : Chars :=
  if line.getLast? = some '\r' then line.dropLast else line

/-- The event under construction. -/
structure Draft where
  event : Option Chars
  id : Option Chars
  data : Option Chars

def Draft.empty : Draft := { event := none, id := none, data := none }

/-- `event.event || "message"` -/
def Draft.type (d : Draft) : Chars :=
  match d.event with
  | some (c :: t) => c :: t
  | _ => "message".toList

def Draft.set (d : Draft) (line : Chars) : Draft :=
  if "event:".toList.isPrefixOf line then { d with event := some (trim (line.drop 6)) }
  else if "id:".toList.isPrefixOf line then { d with id := some (trim (line.drop 3)) }
  else if "data:".toList.isPrefixOf line then
    { d with data := some (d.data.getD [] ++ trimStart (line.drop 5)) }
  else d

section

variable {V : Type*} (parse : Chars → Option V)

/-- The empty line. When `JSON.parse` throws, the generator ends. -/
def Draft.dispatch (d : Draft) : Option Draft × List (Item V) :=
  match d.data with
  | none => (some .empty, [])
  | some data =>
    match parse data with
    | some v => (some .empty, [{ type := d.type, id := d.id, data := v }])
    | none => (none, [])

/-- One pass of the inner loop. The state is nothing after an error. -/
def onLine : Option Draft → Chars → Option Draft × List (Item V)
  | none, _ => (none, [])
  | some d, raw =>
    let line := stripCr raw
    if line = [] then d.dispatch parse else (some (d.set line), [])

/-- What is left in the buffer or in the draft at the end is dropped. -/
def readEventStream (chunks : List Chars) : Reading Char (Option Draft) (Item V) :=
  chunks.foldl (feed '\n' (onLine parse)) { state := some .empty, buffered := [], items := [] }

end

/-! ## One field -/

variable {t : Chars} {d : Draft} {line a b : Chars} {lines : List Chars}

theorem trim_behind_space (h : ∀ c ∈ t, isJsSpace c = false) : trim (' ' :: t) = t := by
  have hstart : trimStart (' ' :: t) = t := by
    unfold trimStart
    rw [List.dropWhile_cons_of_pos (by decide)]
    cases t with
    | nil => rfl
    | cons c t => rw [List.dropWhile_cons_of_neg (by simp [h])]
  unfold trim
  rw [hstart, List.rdropWhile_eq_self_iff]
  intro hne
  simp [h _ (List.getLast_mem hne)]

theorem decimal_no_space {n : Int} : ∀ c ∈ decimal n, isJsSpace c = false := by
  intro c hc
  rcases decimal_char hc with h | rfl
  · have hdigit := Char.isDigit_iff_toNat.mp h
    have h0 : '0'.toNat = 48 := rfl
    have h9 : '9'.toNat = 57 := rfl
    simp only [isJsSpace, jsSpaces, List.contains_eq_mem, decide_eq_false_iff_not, List.mem_cons,
      List.not_mem_nil, or_false]
    omega
  · decide

theorem set_id {value : Chars} (h : ∀ c ∈ value, isJsSpace c = false) :
    d.set (Field.id value).line = { d with id := some value } := by
  have hline : (Field.id value).line = 'i' :: 'd' :: ':' :: ' ' :: value := by
    simp [Field.id, Field.line]
  simp [hline, Draft.set, trim_behind_space h]

theorem set_event {name : String} (h : name.toList.any isJsSpace = false) :
    d.set (Field.event name).line = { d with event := some name.toList } := by
  have hspace : ∀ c ∈ name.toList, isJsSpace c = false := by simpa using h
  have hline : (Field.event name).line =
      'e' :: 'v' :: 'e' :: 'n' :: 't' :: ':' :: ' ' :: name.toList := by
    simp [Field.event, Field.line]
  simp [hline, Draft.set, trim_behind_space hspace]

theorem set_data {p : Printer} {v : Json} (hd : d.data = none) (hv : ∃ t, v.compact p = '{' :: t) :
    d.set (Field.jsonData p v).line = { d with data := some (v.compact p) } := by
  obtain ⟨t, ht⟩ := hv
  have hline : (Field.jsonData p v).line = 'd' :: 'a' :: 't' :: 'a' :: ':' :: ' ' :: '{' :: t := by
    simp [Field.jsonData, Field.line, ht]
  have htrim : trimStart (' ' :: '{' :: t) = '{' :: t := by
    rw [trimStart, List.dropWhile_cons_of_pos (by decide), List.dropWhile_cons_of_neg (by decide)]
  simp [hline, Draft.set, htrim, hd, ht]

theorem resyncEvent_eq {p : Printer} :
    resyncEvent = [.event "resync", .jsonData p (.object [])] := by
  simp [resyncEvent, Field.jsonData, Json.compact, compactFields]

theorem set_comment : d.set (':' :: t) = d := by
  simp [Draft.set]

/-! ## One frame -/

/-- The draft after the lines of a frame. -/
def Frame.draft (p : Printer) (f : Frame) : Draft :=
  match f.sent with
  | some item => { event := some item.type, id := item.id, data := some (item.data.compact p) }
  | none => .empty

variable {p : Printer} {f : Frame}

theorem body_draft : (f.body p).foldl Draft.set .empty = f.draft p := by
  cases f with
  | change ev =>
    simp only [Frame.body, changeToSse, List.map_cons, List.map_nil, List.foldl_cons,
      List.foldl_nil]
    rw [set_id decimal_no_space, set_event (by decide), set_data rfl ⟨_, rfl⟩]
    rfl
  | resync =>
    rw [Frame.body, resyncEvent_eq (p := p)]
    simp only [List.map_cons, List.map_nil, List.foldl_cons, List.foldl_nil]
    rw [set_event (by decide), set_data rfl ⟨_, rfl⟩]
    rfl
  | message channel clientId ts data =>
    simp only [Frame.body, messageEvent, List.map_cons, List.map_nil, List.foldl_cons,
      List.foldl_nil]
    rw [set_event (by decide), set_data rfl ⟨_, rfl⟩]
    rfl
  | presence ev =>
    simp only [Frame.body, presenceEvent, List.map_cons, List.map_nil, List.foldl_cons,
      List.foldl_nil]
    rw [set_event (by decide), set_data rfl ⟨_, rfl⟩]
    rfl
  | comment text =>
    simp only [Frame.body, List.foldl_cons, List.foldl_nil]
    exact set_comment

theorem draft_type {item : Item Json} (h : f.sent = some item) : (f.draft p).type = item.type := by
  cases f with
  | comment text => cases h
  | _ =>
    cases h
    simp [Frame.draft, Frame.sent, Draft.type]

variable {V : Type*} {parse : Chars → Option V} {view : Json → V} {text rest : Chars}

/-- The items that a frame asks for, with the data as the client reads it. -/
def Frame.items (view : Json → V) (f : Frame) : List (Item V) :=
  (f.sent.map (Item.map view)).toList

theorem dispatch_draft
    (hparse : ∀ item, f.sent = some item → parse (item.data.compact p) = some (view item.data)) :
    (f.draft p).dispatch parse = (some .empty, f.items view) := by
  cases hsent : f.sent with
  | none => simp [Frame.draft, Frame.items, Draft.dispatch, Draft.empty, hsent]
  | some item =>
    have htype := draft_type (p := p) hsent
    have hdata := hparse item hsent
    simp only [Frame.draft, hsent] at htype
    simp [Frame.draft, Frame.items, Item.map, Draft.dispatch, hsent, hdata, htype]

/-! ## The text of a stream -/

theorem stripCr_oneLine (h : OneLine line) : stripCr line = line := by
  unfold stripCr
  rw [if_neg]
  intro hlast
  exact (h '\r' (List.mem_of_getLast? hlast)).2 rfl

theorem stripCr_crlf : stripCr (line ++ ['\r']) = line := by
  simp [stripCr]

theorem onLine_of_stripCr (s : Option Draft) (h : stripCr a = stripCr b) :
    onLine parse s a = onLine parse s b := by
  cases s with
  | none => rfl
  | some d => simp only [onLine, h]

theorem drain_ended {s : Option Draft} (hline : OneLine line) (h : Ended line a) :
    drain '\n' (onLine parse) s (a ++ rest) =
      (drain '\n' (onLine parse) (onLine parse s line).1 rest).behind (onLine parse s line).2 := by
  have hnl : '\n' ∉ line := fun hmem => (hline '\n' hmem).1 rfl
  cases h with
  | lf => rw [List.append_assoc, List.singleton_append, drain_line hnl]
  | crlf =>
    have hcr : '\n' ∉ line ++ ['\r'] := by simp [hnl]
    have hsame : onLine parse s (line ++ ['\r']) = onLine parse s line :=
      onLine_of_stripCr s (by rw [stripCr_crlf, stripCr_oneLine hline])
    have hcut : line ++ ['\r', '\n'] ++ rest = (line ++ ['\r']) ++ '\n' :: rest := by simp
    rw [hcut, drain_line hcr, hsame]

theorem drain_body (hlines : ∀ line ∈ lines, line ≠ [] ∧ OneLine line) (h : Written lines a) :
    drain '\n' (onLine parse) (some d) (a ++ rest) =
      drain '\n' (onLine parse) (some (lines.foldl Draft.set d)) rest := by
  induction h generalizing d with
  | nil => rfl
  | cons hline _ ih =>
    obtain ⟨⟨hne, hone⟩, hrest⟩ := List.forall_mem_cons.mp hlines
    rw [List.append_assoc, drain_ended hone hline]
    simp only [onLine, stripCr_oneLine hone, if_neg hne, behind_nil]
    exact ih hrest

theorem drain_frame_body (h : Written (f.body p) a) :
    drain '\n' (onLine parse) (some .empty) (a ++ rest) =
      drain '\n' (onLine parse) (some (f.draft p)) rest := by
  rw [drain_body (fun line hline => ⟨body_ne_nil hline, body_oneLine hline⟩) h, body_draft]

theorem drain_frame
    (hparse : ∀ item, f.sent = some item → parse (item.data.compact p) = some (view item.data))
    (h : Written (f.lines p) a) :
    drain '\n' (onLine parse) (some .empty) (a ++ rest) =
      (drain '\n' (onLine parse) (some .empty) rest).behind (f.items view) := by
  obtain ⟨b, c, hbody, hend, rfl⟩ := h.split
  obtain ⟨⟩ | ⟨hline, hnil⟩ := hend
  cases hnil
  rw [List.append_assoc, drain_frame_body hbody, List.append_nil, drain_ended (by decide) hline]
  have hblank : onLine parse (some (f.draft p)) [] = (f.draft p).dispatch parse := rfl
  rw [hblank, dispatch_draft hparse]

theorem drain_stream {frames : List Frame}
    (hparse : ∀ f ∈ frames, ∀ item, f.sent = some item →
      parse (item.data.compact p) = some (view item.data))
    (h : StreamText p frames text) :
    drain '\n' (onLine parse) (some .empty) (text ++ rest) =
      (drain '\n' (onLine parse) (some .empty) rest).behind
        (frames.flatMap (Frame.items view)) := by
  induction frames generalizing text with
  | nil =>
    cases h
    rfl
  | cons f frames ih =>
    obtain ⟨hf, hframes⟩ := List.forall_mem_cons.mp hparse
    obtain ⟨b, c, hb, hc, rfl⟩ := Written.split h
    rw [List.append_assoc, drain_frame hf hb, ih hframes hc, behind_behind, List.flatMap_cons]

/-! ## The end of a stream -/

theorem drain_thrown : (drain '\n' (onLine parse) none a).state = none :=
  drain_invariant (P := (· = none)) (fun s line hs => by rw [hs]; rfl) rfl

/-- A frame yields nothing before its end has come, and nothing is thrown. -/
theorem drain_incomplete (parse : Chars → Option V) (h : Incomplete p a) :
    (drain '\n' (onLine parse) (some .empty) a).items = [] ∧
      (drain '\n' (onLine parse) (some .empty) a).state ≠ none := by
  obtain ⟨f, full, hfull, hprefix, hne⟩ := h
  obtain ⟨b, cr, hbody, hcr, rfl⟩ := Written.concat hfull
  have hcut : a <+: b ++ cr := by
    rcases List.prefix_concat_iff.mp hprefix with heq | hlt
    · exact absurd heq hne
    · exact hlt
  have hopen : '\n' ∉ cr := by
    obtain rfl | rfl := hcr <;> decide
  have hdrain : drain '\n' (onLine parse) (some .empty) (b ++ cr) =
      { state := some (f.draft p), buffered := cr, items := [] } := by
    rw [drain_frame_body hbody, drain_of_none (cutLine_open hopen)]
  constructor
  · have hitems : (drain '\n' (onLine parse) (some .empty) a).items <+:
        (drain '\n' (onLine parse) (some .empty) (b ++ cr)).items := items_prefix hcut
    rw [hdrain] at hitems
    exact List.prefix_nil.mp hitems
  · intro hthrown
    obtain ⟨rest, heq⟩ := hcut
    rw [← heq, drain_append, feed, hthrown] at hdrain
    have hstate := congrArg Reading.state hdrain
    rw [behind_state, drain_thrown] at hstate
    cases hstate

theorem readEventStream_eq (chunks : List Chars) :
    readEventStream parse chunks = drain '\n' (onLine parse) (some .empty) chunks.flatten := by
  have hstart : drain '\n' (onLine parse) (some .empty) [] =
      { state := some .empty, buffered := [], items := [] } := drain_of_none rfl
  rw [readEventStream, ← hstart, foldl_feed, List.nil_append]

/-- However the text is cut, and with either end for each line, the client yields every event as it
was sent, nothing for a comment or for a last frame that is not complete, and throws nothing.
`parse` is `JSON.parse`. As `view` is arbitrary, the premise is that it throws on no document that
was sent, and the data of an event are what it makes of the document's compact text. -/
theorem parser_undoes_frames (p : Printer) (parse : Chars → Option V) (view : Json → V)
    (frames : List Frame)
    (hparse : ∀ f ∈ frames, ∀ item, f.sent = some item →
      parse (item.data.compact p) = some (view item.data))
    (text last : Chars) (htext : StreamText p frames text) (hlast : Incomplete p last)
    (chunks : List Chars) (hchunks : chunks.flatten = text ++ last) :
    (readEventStream parse chunks).items = (frames.filterMap Frame.sent).map (Item.map view) ∧
      (readEventStream parse chunks).state ≠ none := by
  obtain ⟨hitems, hstate⟩ := drain_incomplete parse hlast
  rw [readEventStream_eq, hchunks, drain_stream hparse htext]
  constructor
  · rw [behind_items, hitems, List.append_nil, List.map_filterMap, List.filterMap_eq_flatMap_toList]
    rfl
  · rw [behind_state]
    exact hstate

/-- Its floats do not matter to the documents below, which hold none. -/
def plainPrinter : Printer :=
  { float := fun _ => "0.0".toList, float_oneLine := fun _ => by decide }

def joined : Pubsub.PubSubEvent :=
  { channel := "lobby", clientId := "publisher-1", ts := 1, kind := .join }

/-- `JSON.parse` on the one document that it is given below. -/
def roomParse (t : Chars) : Option Json :=
  if t = "\x7b\"client_id\":\"publisher-1\",\"ts\":1,\"type\":\"join\"\x7d".toList then
    some (presencePayload joined)
  else none

/-- A keep-alive, a join that is cut within a field name and within a line end, and the start of a
message. -/
theorem parser_undoes_frames_room :
    (readEventStream roomParse [":ka\n\neve".toList, "nt: presence\r\nda".toList,
        "ta: \x7b\"client_id\":\"publisher-1\",\"ts\":1,\"type\":\"join\"\x7d\r\n\r".toList,
        "\nevent: mess".toList]).items =
      [{ type := "presence".toList, id := none, data := presencePayload joined }] ∧
    (readEventStream roomParse [":ka\n\neve".toList, "nt: presence\r\nda".toList,
        "ta: \x7b\"client_id\":\"publisher-1\",\"ts\":1,\"type\":\"join\"\x7d\r\n\r".toList,
        "\nevent: mess".toList]).state ≠ none := by
  have hparse : ∀ f ∈ [Frame.comment ⟨"ka".toList, by decide⟩, .presence joined], ∀ item,
      f.sent = some item → roomParse (item.data.compact plainPrinter) = some (id item.data) := by
    intro f hf item hitem
    simp only [List.mem_cons, List.not_mem_nil, or_false] at hf
    obtain rfl | rfl := hf
    · cases hitem
    · cases hitem
      exact if_pos (by decide)
  have htext : StreamText plainPrinter
      [.comment ⟨"ka".toList, by decide⟩, .presence joined] _ :=
    .cons .lf (.cons .lf (.cons .crlf (.cons .crlf (.cons .crlf .nil))))
  have hlast : Incomplete plainPrinter "event: mess".toList :=
    ⟨.message "lobby" "publisher-1" 2 .null, _, .cons .lf (.cons .lf (.cons .lf .nil)),
      by decide, by decide⟩
  exact parser_undoes_frames plainPrinter roomParse id _ hparse _ _ htext hlast _ (by decide)

end TinyLord.Realtime
