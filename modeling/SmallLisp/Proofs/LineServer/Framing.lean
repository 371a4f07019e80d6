import Mathlib.Data.List.DropRight
import SmallLisp.LineServer
import SmallLisp.Proofs.Eval.Effect
import SmallLisp.Proofs.Json.RoundTrip

/-!
Replies are told apart by line feeds.

A reply is written in plain text, so its only line feed is the one after it, and its bytes are those of
basic Latin.  Cut at line feeds, what has been sent falls into the replies again, and each of them is
read as the object that it is (`Reply.document?_piece`), but for surrogates that form a pair.  The main
statement, `serve_frames_replies`, is about whole connections: whatever bytes a client sends, it gets one
reply for each line that is not blank, in order, and can read what it gets.
-/

namespace SmallLisp

/-! ## Bytes of basic Latin -/

namespace Utf8

def Ascii (t : Text) : Prop := ∀ c ∈ t, c.toNat < 0x80

/-- The bytes of a text in basic Latin. -/
def asciiBytes (t : Text) : List UInt8 := t.map fun c => UInt8.ofNat c.toNat

theorem encode?_ascii {t : Text} (h : Ascii t) : encode? t = some (asciiBytes t) := by
  induction t with
  | nil => rfl
  | cons c t ih =>
    obtain ⟨hc, ht⟩ := List.forall_mem_cons.mp h
    cases c with
    | surrogate n =>
      replace hc : 0xd800 + n.val < 0x80 := hc
      omega
    | char c =>
      replace hc : c.toNat < 0x80 := hc
      have hbytes : String.utf8EncodeChar c = [UInt8.ofNat c.toNat] := by
        have hle : c.val.toNat ≤ 127 := Nat.le_of_lt_succ hc
        simp only [String.utf8EncodeChar, if_pos hle]
        rfl
      rw [encode?, ih ht, hbytes]
      rfl

theorem decode_ascii {t : Text} (h : Ascii t) : decode (asciiBytes t) = .ok t := by
  have hfrom (offset : Nat) : decodeFrom offset 0 ((asciiBytes t).map UInt8.toNat) = .ok t := by
    induction t generalizing offset with
    | nil => rfl
    | cons c t ih =>
      obtain ⟨hc, ht⟩ := List.forall_mem_cons.mp h
      cases c with
      | surrogate n =>
        replace hc : 0xd800 + n.val < 0x80 := hc
        omega
      | char c =>
        replace hc : c.toNat < 0x80 := hc
        have hbyte : (UInt8.ofNat c.toNat).toNat = c.toNat := by
          rw [UInt8.toNat_ofNat']
          omega
        have hhead (rest : List Nat) : headChar offset c.toNat rest = .ok (.char c, 0) := by
          have hwidth : width? c.toNat = some 1 := if_pos hc
          have hnone : continued c.toNat (1 - 1) rest = 0 := rfl
          have hpoint : codePoint 1 c.toNat [] = c.toNat := rfl
          simp only [headChar, hwidth, hnone, List.take_zero, hpoint, Char.ofNat_toNat]
          rfl
        show decodeFrom offset 0
          ((UInt8.ofNat c.toNat).toNat :: (asciiBytes t).map UInt8.toNat) = _
        rw [hbyte, decodeFrom]
        simp only [hhead, ih ht]
        rfl
  exact hfrom 0

end Utf8

namespace LineServer

/-! ## Lines -/

theorem splitLines_ne_nil (data : List UInt8) : splitLines data ≠ [] := by
  fun_cases splitLines data with
  | case1 => exact List.cons_ne_nil _ _
  | case2 => exact List.cons_ne_nil _ _
  | case3 => exact List.cons_ne_nil _ _
  | case4 => exact List.cons_ne_nil _ _

theorem splitLines_feed (data : List UInt8) : splitLines (0x0a :: data) = [] :: splitLines data := by
  obtain ⟨line, lines, h⟩ := List.exists_cons_of_ne_nil (splitLines_ne_nil data)
  rw [splitLines, h]
  rfl

theorem splitLines_cons {b : UInt8} (hb : b ≠ 0x0a) {data line : List UInt8} {lines : List (List UInt8)}
    (h : splitLines data = line :: lines) : splitLines (b :: data) = (b :: line) :: lines := by
  rw [splitLines, h]
  exact if_neg (by rwa [beq_iff_eq])

/-- A line up to its line feed is the first one. -/
theorem splitLines_append {line : List UInt8} (h : 0x0a ∉ line) (data : List UInt8) :
    splitLines (line ++ 0x0a :: data) = line :: splitLines data := by
  induction line with
  | nil => exact splitLines_feed data
  | cons b line ih =>
    rw [List.mem_cons, not_or] at h
    exact splitLines_cons (Ne.symm h.1) (ih h.2)

/-- The lines are the pieces between line feeds. -/
theorem splitLines_spec (data : List UInt8) :
    [0x0a].intercalate (splitLines data) = data ∧ ∀ line ∈ splitLines data, 0x0a ∉ line := by
  induction data with
  | nil => exact ⟨rfl, by simp [splitLines]⟩
  | cons b data ih =>
    obtain ⟨line, lines, h⟩ := List.exists_cons_of_ne_nil (splitLines_ne_nil data)
    by_cases hb : b = 0x0a
    · subst hb
      rw [splitLines_feed, List.intercalate_cons_of_ne_nil (splitLines_ne_nil data), ih.1]
      exact ⟨rfl, List.forall_mem_cons.mpr ⟨List.not_mem_nil, ih.2⟩⟩
    · rw [splitLines_cons hb h]
      rw [h] at ih
      obtain ⟨hdata, hlines⟩ := ih
      obtain ⟨hline, hlines⟩ := List.forall_mem_cons.mp hlines
      refine ⟨?_, List.forall_mem_cons.mpr ⟨?_, hlines⟩⟩
      · rw [← hdata]
        cases lines with
        | nil => rw [List.intercalate_singleton, List.intercalate_singleton]
        | cons next lines =>
          rw [List.intercalate_cons_cons, List.intercalate_cons_cons, List.append_assoc,
            List.append_assoc, List.cons_append]
      · rw [List.mem_cons, not_or]
        exact ⟨Ne.symm hb, hline⟩

theorem splitLines_flatMap {pieces : List (List UInt8)} (h : ∀ piece ∈ pieces, 0x0a ∉ piece) :
    splitLines (pieces.flatMap (· ++ [0x0a])) = pieces ++ [[]] := by
  induction pieces with
  | nil => rfl
  | cons piece pieces ih =>
    obtain ⟨hpiece, hpieces⟩ := List.forall_mem_cons.mp h
    rw [List.flatMap_cons, List.append_assoc, List.singleton_append, splitLines_append hpiece,
      ih hpieces]
    rfl

/-- Nothing but blanks stands on the line. -/
def Blank (line : List UInt8) : Prop := ∀ b ∈ line, isBlankByte b = true

instance (line : List UInt8) : Decidable (Blank line) :=
  inferInstanceAs (Decidable (∀ b ∈ line, isBlankByte b = true))

theorem isEmpty_trimBytes (line : List UInt8) : (trimBytes line).isEmpty = true ↔ Blank line := by
  have hright : (trimBytes line).isEmpty = true ↔ Blank (line.dropWhile isBlankByte) :=
    List.isEmpty_iff.trans List.rdropWhile_eq_nil_iff
  rw [hright]
  refine ⟨fun h => ?_, fun h b hb => h b (List.dropWhile_sublist _ |>.mem hb)⟩
  rw [← List.takeWhile_append_dropWhile (p := isBlankByte) (l := line)]
  exact fun b hb => (List.mem_append.mp hb).elim List.mem_takeWhile_imp (h b)

/-! ## Requests and replies -/

/-- Line by line, the server gives these replies: none to a blank line, and to any other the one that
the request on it has. -/
inductive Answered (service : Service) : List (List UInt8) → State → List Reply → State → Prop
  | nil {s : State} : Answered service [] s [] s
  | blank {line : List UInt8} {lines : List (List UInt8)} {s t : State} {replies : List Reply} :
    Blank line → Answered service lines s replies t → Answered service (line :: lines) s replies t
  | asked {line : List UInt8} {lines : List (List UInt8)} {s t : State} {reply : Reply}
      {replies : List Reply} :
    ¬Blank line → (handle service (trimBytes line) s).1 = .ok (.ok reply) →
    Answered service lines (handle service (trimBytes line) s).2 replies t →
    Answered service (line :: lines) s (reply :: replies) t

section

variable {service : Service} {s t : State} {lines : List (List UInt8)} {replies : List Reply}

theorem Answered.length_eq (h : Answered service lines s replies t) :
    replies.length = lines.countP (¬Blank ·) := by
  induction h with
  | nil => rfl
  | blank hblank _ ih => rw [ih, List.countP_cons_of_neg (by simpa using hblank)]
  | asked hblank _ _ ih => rw [List.length_cons, ih, List.countP_cons_of_pos (by simpa using hblank)]

/-- A server gets through all requests exactly if every line that is not blank is answered. -/
theorem serveEach_eq_iff_answered :
    serveEach service ((lines.map trimBytes).filter (!·.isEmpty)) s = (.ok (replies, none), t) ↔
      Answered service lines s replies t := by
  induction lines generalizing s replies with
  | nil =>
    constructor
    · intro h
      cases h
      exact .nil
    · intro h
      cases h
      rfl
  | cons line lines ih =>
    rw [List.map_cons]
    by_cases hblank : Blank line
    · have hempty : (trimBytes line).isEmpty = true := (isEmpty_trimBytes line).mpr hblank
      rw [List.filter_cons_of_neg (by simp [hempty]), ih]
      constructor
      · exact .blank hblank
      · intro h
        cases h with
        | blank _ h => exact h
        | asked hasked => exact absurd hblank hasked
    · have hempty : (trimBytes line).isEmpty = false :=
        Bool.eq_false_iff.mpr (mt (isEmpty_trimBytes line).mp hblank)
      rw [List.filter_cons_of_pos (by simp [hempty]), serveEach]
      constructor
      · intro h
        obtain ⟨result, u, hhandle, hrest⟩ := Run.eq_ok_of_bind_eq_ok h
        cases result with
        | error escape => cases hrest
        | ok reply =>
          obtain ⟨⟨rest, escape⟩, u', hserve, hends⟩ := Run.eq_ok_of_bind_eq_ok hrest
          cases hends
          exact .asked hblank (by rw [hhandle]) (ih.mp (by rw [hhandle]; exact hserve))
      · intro h
        cases h with
        | blank h => exact absurd h hblank
        | asked _ hhandle hrest =>
          rw [Run.bind_ok (Prod.ext hhandle rfl)]
          exact Run.bind_ok (ih.mpr hrest)

end

/-! ## Replies -/

/-- The result of a reply or its error. -/
def Reply.text : Reply → Text
  | .result text => text
  | .error message => message

/-- The reply with the surrogates that form a pair joined in its text. -/
def Reply.joined : Reply → Reply
  | .result text => .result (Json.joinPairs text)
  | .error message => .error (Json.joinPairs message)

theorem Reply.joined_eq_iff (reply : Reply) :
    reply.joined = reply ↔ Json.joinPairs reply.text = reply.text := by
  cases reply with
  | result text => exact Reply.result.injEq _ _ ▸ Iff.rfl
  | error message => exact Reply.error.injEq _ _ ▸ Iff.rfl

theorem Reply.toJson_injective : Function.Injective Reply.toJson := by
  intro reply reply' h
  cases reply <;> cases reply' <;> cases h <;> rfl

theorem Reply.plain_render (reply : Reply) : Json.Plain reply.toJson.render := by
  have hbool : ∀ b, Json.Plain (Json.bool b).render := by decide
  have hfields (key text : Text) (b : Bool) :
      ∀ field ∈ ([("ok", .bool b), (key, .string text)] : List (Text × Json)),
        Json.Plain field.2.render :=
    List.forall_mem_cons.mpr ⟨hbool b, List.forall_mem_singleton.mpr (Json.plain_writeString text)⟩
  cases reply with
  | result text => exact Json.plain_render_object (hfields "result" text true)
  | error message => exact Json.plain_render_object (hfields "error" message false)

/-- A reply is read as the object that it is, but for the pairs in its text. -/
theorem Reply.parse_render (depth : Nat) (reply : Reply) :
    Json.parse (depth + 1) reply.toJson.render = .ok reply.joined.toJson := by
  have hfields (key text : Text) (b : Bool) :
      Json.FieldsReadAs (Json.value depth) [("ok", .bool b), (key, .string text)]
        [("ok", .bool b), (Json.joinPairs key, .string (Json.joinPairs text))] :=
    .cons ⟨rfl, Json.readsAs_bool depth b⟩ (.cons ⟨rfl, Json.readsAs_string depth text⟩ .nil)
  cases reply with
  | result text => exact Json.parse_render_object (hfields "result" text true)
  | error message => exact Json.parse_render_object (hfields "error" message false)

/-- The document that a client reads in the bytes, if its stack has `depth` frames. -/
def document? (depth : Nat) (bytes : List UInt8) : Option Json :=
  match Utf8.decode bytes with
  | .error _ => none
  | .ok text => (Json.parse depth text).toOption

/-- The bytes of a reply, without the line feed after it. -/
def Reply.piece (reply : Reply) : List UInt8 := Utf8.asciiBytes reply.toJson.render

theorem Reply.ascii_render (reply : Reply) : Utf8.Ascii reply.toJson.render :=
  fun c hc => (reply.plain_render c hc).2

theorem Reply.feed_not_mem_piece (reply : Reply) : 0x0a ∉ reply.piece := by
  intro h
  obtain ⟨c, hc, hfeed⟩ := List.mem_map.mp h
  have hplain := reply.plain_render c hc
  have hbyte := congrArg UInt8.toNat hfeed
  rw [UInt8.toNat_ofNat'] at hbyte
  replace hbyte : c.toNat % 256 = 10 := hbyte
  omega

theorem Reply.document?_piece (depth : Nat) (reply : Reply) :
    document? (depth + 1) reply.piece = some reply.joined.toJson := by
  rw [document?, piece, Utf8.decode_ascii reply.ascii_render]
  simp only [Reply.parse_render]
  rfl

section

variable (replies : List Reply)

theorem ascii_sent : Utf8.Ascii (sent replies) := by
  intro c hc
  obtain ⟨reply, -, hc⟩ := List.mem_flatMap.mp hc
  rcases List.mem_append.mp hc with hc | hc
  · exact reply.ascii_render c hc
  · rw [List.mem_singleton.mp hc]
    decide

theorem encode?_sent :
    Utf8.encode? (sent replies) = some ((replies.map Reply.piece).flatMap (· ++ [0x0a])) := by
  have hline (reply : Reply) :
      Utf8.asciiBytes (reply.toJson.render ++ "\n") = reply.piece ++ [0x0a] := List.map_append
  rw [Utf8.encode?_ascii (ascii_sent replies), sent, Utf8.asciiBytes, List.map_flatMap, List.flatMap_map]
  simp only [← hline]
  rfl

theorem forall₂_piece :
    List.Forall₂ (fun reply piece => Utf8.encode? (sent [reply]) = some (piece ++ [0x0a]) ∧ 0x0a ∉ piece)
      replies (replies.map Reply.piece) := by
  refine List.forall₂_map_right_iff.mpr (List.forall₂_same.mpr fun reply _ => ?_)
  exact ⟨(encode?_sent [reply]).trans (by simp), reply.feed_not_mem_piece⟩

theorem document?_pieces_iff (depth : Nat) :
    (replies.map Reply.piece).map (document? (depth + 1)) = replies.map (some ·.toJson) ↔
      ∀ reply ∈ replies, Json.joinPairs reply.text = reply.text := by
  rw [List.map_map, List.map_inj_left]
  refine forall₂_congr fun reply _ => ?_
  rw [Function.comp_apply, reply.document?_piece, Option.some.injEq, Reply.toJson_injective.eq_iff,
    reply.joined_eq_iff]

end

/-- If every line that is not blank is answered, the answers are the replies, in order.  Each of them
goes out as one line, and cut at its line feeds, all that goes out falls into these lines.  Each line is
read as the reply that it was, exactly if no text has two surrogates side by side that form a pair. -/
theorem serve_frames_replies {service : Service} {data : List UInt8} {s t : State}
    {replies : List Reply} (h : Answered service (splitLines data) s replies t) (depth : Nat) :
    serve service data s = (.ok (replies, none), t) ∧
      ([0x0a].intercalate (splitLines data) = data ∧ ∀ line ∈ splitLines data, 0x0a ∉ line) ∧
      replies.length = (splitLines data).countP (¬Blank ·) ∧
      ∃ pieces : List (List UInt8),
        List.Forall₂
          (fun reply piece => Utf8.encode? (sent [reply]) = some (piece ++ [0x0a]) ∧ 0x0a ∉ piece)
          replies pieces ∧
        Utf8.encode? (sent replies) = some (pieces.flatMap (· ++ [0x0a])) ∧
        splitLines (pieces.flatMap (· ++ [0x0a])) = pieces ++ [[]] ∧
        (pieces.map (document? (depth + 1)) = replies.map (some ·.toJson) ↔
          ∀ reply ∈ replies, Json.joinPairs reply.text = reply.text) := by
  have hpieces : ∀ piece ∈ replies.map Reply.piece, 0x0a ∉ piece :=
    List.forall_mem_map.mpr fun reply _ => reply.feed_not_mem_piece
  exact ⟨serveEach_eq_iff_answered.mpr h, splitLines_spec data, h.length_eq, replies.map Reply.piece,
    forall₂_piece replies, encode?_sent replies, splitLines_flatMap hpieces,
    document?_pieces_iff replies depth⟩

/-- A new server is sent a blank line, a command with a line feed in it that it does not know, another
blank line, and code whose value is no basic Latin, on a line that does not end. -/
theorem serve_frames_replies_newServer :
    let setup : Setup := ⟨⟨⟨[], []⟩, [], none, []⟩, Limit.default.available, none⟩
    let s := (Interpreter.create setup .nothing none none ⟨.empty, .start [], []⟩).2
    let data := Utf8.toName
      "\n\x7b\"cmd\": \"a\\nb\"\x7d\n  \r\n\x7b\"cmd\": \"eval\", \"code\": \"'\\u00e9\"\x7d"
    let replies := [.error "Unknown cmd: a\nb", .result "é"]
    ∃ t, Answered ⟨setup, ⟨0⟩⟩ (splitLines data) s replies t ∧
      serve ⟨setup, ⟨0⟩⟩ data s = (.ok (replies, none), t) := by
  intro setup s data replies
  have hlines : splitLines data = [[], Utf8.toName "\x7b\"cmd\": \"a\\nb\"\x7d", Utf8.toName "  \r",
      Utf8.toName "\x7b\"cmd\": \"eval\", \"code\": \"'\\u00e9\"\x7d"] := by decide +kernel
  have hanswered : ∃ t, Answered ⟨setup, ⟨0⟩⟩ (splitLines data) s replies t := by
    rw [hlines]
    exact ⟨_, .blank nofun (.asked (by decide +kernel) (by decide +kernel)
      (.blank (by decide +kernel) (.asked (by decide +kernel) (by decide +kernel) .nil)))⟩
  obtain ⟨t, ht⟩ := hanswered
  exact ⟨t, ht, (serve_frames_replies ht 0).1⟩

end LineServer
end SmallLisp
