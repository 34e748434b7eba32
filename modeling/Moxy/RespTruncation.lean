import Moxy.RespStream
import Moxy.RespServer

/-!
# Moxy: requests that end in the middle

A connection may end at any byte.  Inside a line or a bulk string the reader notices
that bytes are missing and reports a malformed value.  In front of a value there is
nothing to notice: the reader reports the end of the input, and an array passes this
on from its items as it is.

`InFront v p` says that `p` is what a cut directly in front of `v`, or of an item at
any depth of `v`, leaves of the bytes of `v`.  These are the cuts at which the reader
sees the end of the input (`readNext_inFront`); every other proper cut is reported
(`readNext_cut`).
-/

namespace Moxy

open Lib Lib.CrashM

/-- The bytes of an array in front of its items. -/
def arrayHeader (items : List Value) : Bytes :=
  42 :: (formatInt items.length ++ crlf)

/-- The bytes of `v` are cut directly in front of `v` or of an item inside. -/
inductive InFront : Value → Bytes → Prop
  | start (v : Value) :
      InFront v []
  | item
      {before after : List Value} {v : Value} {p : Bytes}
      (h : InFront v p) :
      InFront (.array (before ++ v :: after))
        (arrayHeader (before ++ v :: after) ++ (writeValues before ++ p))

/-- The read ended because the input breaks the format. -/
def ReadEnd.Malformed (e : ReadEnd) : Prop :=
  ∃ err, e = .fails err ∧ err.is .errMalformedRESP = true

theorem malformed_is
    (detail : GoString) :
    (malformed detail).Malformed :=
  ⟨_, rfl, rfl⟩

section Cuts

/-- Without a line feed there is no line. -/
theorem readLine_noFeed
    {bytes : Bytes}
    (h : 10 ∉ bytes) :
    readLine bytes = .error (malformed (goString "missing CRLF")) := by
  have hdrop : bytes.dropWhile (· ≠ 10) = [] := by
    rw [List.dropWhile_eq_nil_iff]
    intro b hb
    exact decide_eq_true (fun heq => h (heq ▸ hb))
  rw [readLine, hdrop]

/-- A proper prefix of a line has no line feed. -/
theorem noFeed_of_cut
    {s p : Bytes}
    (hfeed : 10 ∉ s)
    (hp : p <+: s ++ crlf)
    (hproper : p ≠ s ++ crlf) :
    10 ∉ p := by
  have hsplit : s ++ crlf = (s ++ [13]) ++ [10] := by
    simp [crlf]
  rw [hsplit, List.prefix_concat_iff] at hp
  rw [hsplit] at hproper
  rcases hp with heq | hp
  · exact absurd heq hproper
  · intro hmem
    rcases List.mem_append.mp (hp.subset hmem) with hs | hr
    · exact hfeed hs
    · exact absurd hr (by decide)

/-- A cut through two parts falls inside the first, or behind it. -/
theorem cut_append
    {p a b : Bytes}
    (hp : p <+: a ++ b)
    (hproper : p ≠ a ++ b) :
    (p <+: a ∧ p ≠ a) ∨ ∃ q, p = a ++ q ∧ q <+: b ∧ q ≠ b := by
  by_cases hlong : a <+: p
  · obtain ⟨q, rfl⟩ := hlong
    exact Or.inr ⟨q, rfl, (List.prefix_append_right_inj a).mp hp, fun h => hproper (h ▸ rfl)⟩
  · rcases List.prefix_or_prefix_of_prefix hp (List.prefix_append a b) with hshort | habs
    · exact Or.inl ⟨hshort, fun h => hlong (h ▸ List.prefix_rfl)⟩
    · exact absurd habs hlong

/-- A cut through a row of values falls inside one of them. -/
theorem cut_writeValues
    {p : Bytes} {vs : List Value}
    (hp : p <+: writeValues vs)
    (hproper : p ≠ writeValues vs) :
    ∃ before v after q,
      vs = before ++ v :: after ∧
      p = writeValues before ++ q ∧
      q <+: writeValue v ∧
      q ≠ writeValue v := by
  induction vs generalizing p with
  | nil =>
      exact absurd (List.prefix_nil.mp hp) hproper
  | cons v vs ih =>
      rcases cut_append hp hproper with ⟨hq, hne⟩ | ⟨q, rfl, hq, hne⟩
      · exact ⟨[], v, vs, p, rfl, rfl, hq, hne⟩
      · obtain ⟨before, w, after, r, rfl, rfl, hr, hne'⟩ := ih hq hne
        exact ⟨v :: before, w, after, r, rfl, by simp [writeValues], hr, hne'⟩

/-- A row of reads fails where one of them fails. -/
theorem readMany_fails
    {read : Bytes → Except ReadEnd (Value × Bytes)} {e : ReadEnd} (k : Nat) :
    ∀ (n : Nat) {bytes rest : Bytes} {vs : List Value},
      readMany read n bytes = .ok (vs, rest) →
      read rest = .error e →
      readMany read (n + (k + 1)) bytes = .error e := by
  intro n
  induction n with
  | zero =>
      intro bytes rest vs h herror
      cases h
      rw [Nat.zero_add, readMany, herror]
  | succ n ih =>
      intro bytes rest vs h herror
      obtain ⟨v, tail, others, hfirst, hrest, _⟩ := readMany_succ_ok h
      rw [show n + 1 + (k + 1) = n + (k + 1) + 1 by omega, readMany, hfirst]
      simp only [ih hrest herror]

end Cuts

section Values

/-- An array whose items end early ends as its first unreadable item. -/
theorem readNext_arrayHeader
    {before after : List Value} {v : Value} {p : Bytes} {e : ReadEnd}
    (hwire : (Value.array (before ++ v :: after)).Wire)
    (hitem : readNext p = .error e) :
    readNext (arrayHeader (before ++ v :: after) ++ (writeValues before ++ p)) =
      .error e := by
  obtain ⟨hcount, hitems⟩ := hwire
  have hint : IsInt64 ((before ++ v :: after).length : Int) := by
    refine isInt64_ofNat (hcount.trans ?_)
    decide
  have hbefore : Value.WireAll before := by
    rw [Value.wireAll_iff] at hitems ⊢
    exact fun w hw => hitems w (List.mem_append_left _ hw)
  rw [readNext, arrayHeader, List.cons_append, List.length_cons, readValue]
  generalize hfuel :
    (formatInt ((before ++ v :: after).length : Int) ++ crlf ++
      (writeValues before ++ p)).length + 1 = fuel
  simp only [List.length_append] at hfuel
  have hrow : readMany (readValue fuel) before.length (writeValues before ++ p) =
      .ok (before, p) :=
    readMany_writeValues before fuel p hbefore (by omega)
  have hlast : readValue fuel p = .error e := by
    rw [← readNext_eq (by omega), hitem]
  have hmany := readMany_fails after.length before.length hrow hlast
  have hlength : before.length + (after.length + 1) = (before ++ v :: after).length := by
    simp
  rw [hlength] at hmany
  show readArray (readValue fuel) _ = _
  rw [readArray, formatInt_line hint]
  simp only [parseInt64_formatInt hint, Int.toNat_natCast, hmany]
  rw [if_neg (by omega), if_neg (by omega)]

/-- In front of a value the reader sees the end of the input. -/
theorem readNext_inFront
    {v : Value} {p : Bytes}
    (h : InFront v p)
    (hwire : v.Wire) :
    readNext p = .error .eof := by
  induction h with
  | start v =>
      rfl
  | @item before after v p _ ih =>
      have hitem : v.Wire := (Value.wireAll_iff _).mp hwire.2 v (by simp)
      exact readNext_arrayHeader hwire (ih hitem)

/-- A line that is cut is malformed. -/
theorem readLineValue_cut
    (parse : GoString → Except ReadEnd Value) {s p : Bytes}
    (hfeed : 10 ∉ s)
    (hp : p <+: s ++ crlf)
    (hproper : p ≠ s ++ crlf) :
    ∃ e, readLineValue parse p = .error e ∧ e.Malformed := by
  rw [readLineValue, readLine_noFeed (noFeed_of_cut hfeed hp hproper)]
  exact ⟨_, rfl, malformed_is _⟩

theorem formatInt_noFeed
    (i : Int) :
    10 ∉ formatInt i :=
  fun hfeed => absurd (formatInt_bytes hfeed) (by decide)

/-- A bulk string that is cut is malformed. -/
theorem readBulkString_cut
    {s p : Bytes}
    (hsize : s.length ≤ maxBulkLength)
    (hp : p <+: formatInt s.length ++ crlf ++ (s ++ crlf))
    (hproper : p ≠ formatInt s.length ++ crlf ++ (s ++ crlf)) :
    ∃ e, readBulkString p = .error e ∧ e.Malformed := by
  have hint := isInt64_ofNat hsize
  rcases cut_append hp hproper with ⟨hline, hne⟩ | ⟨q, rfl, hq, hne⟩
  · rw [readBulkString, readLine_noFeed (noFeed_of_cut (formatInt_noFeed _) hline hne)]
    exact ⟨_, rfl, malformed_is _⟩
  · have hshort : q.length < s.length + 2 := by
      have hlength : (s ++ crlf).length = s.length + 2 := by
        simp [crlf]
      have hle := hq.length_le
      have hneq : q.length ≠ (s ++ crlf).length := fun h => hne (hq.eq_of_length h)
      omega
    rw [readBulkString, formatInt_line hint]
    simp only [parseInt64_formatInt hint, Int.toNat_natCast]
    rw [if_neg (by omega), if_neg (by omega), if_neg (by omega), if_pos hshort]
    exact ⟨_, rfl, malformed_is _⟩

/-- A cut that is not in front of a value is reported as malformed. -/
theorem readNext_cut
    (n : Nat) :
    ∀ {v : Value} {p : Bytes},
      p.length ≤ n →
      v.Wire →
      p <+: writeValue v →
      p ≠ writeValue v →
      InFront v p ∨ ∃ e, readNext p = .error e ∧ e.Malformed := by
  induction n with
  | zero =>
      intro v p hn _ _ _
      rw [List.length_eq_zero_iff.mp (Nat.le_zero.mp hn)]
      exact Or.inl (InFront.start v)
  | succ n ih =>
      intro v p hn hwire hp hproper
      cases p with
      | nil =>
          exact Or.inl (InFront.start v)
      | cons kind q =>
          rw [List.length_cons] at hn
          rw [readNext, List.length_cons, readValue]
          cases v with
          | simpleString s =>
              obtain ⟨rfl, hq⟩ := List.cons_prefix_cons.mp hp
              exact Or.inr (readLineValue_cut (fun line => .ok (.simpleString line))
                hwire.1 hq (fun h => hproper (h ▸ rfl)))
          | error s =>
              obtain ⟨rfl, hq⟩ := List.cons_prefix_cons.mp hp
              exact Or.inr (readLineValue_cut (fun line => .ok (.error line))
                hwire.1 hq (fun h => hproper (h ▸ rfl)))
          | integer i =>
              obtain ⟨rfl, hq⟩ := List.cons_prefix_cons.mp hp
              exact Or.inr (readLineValue_cut parseInteger (formatInt_noFeed i) hq
                (fun h => hproper (h ▸ rfl)))
          | nullBulkString =>
              obtain ⟨rfl, hq⟩ := List.cons_prefix_cons.mp hp
              have hfeed : 10 ∉ q :=
                noFeed_of_cut (by decide) hq (fun h => hproper (h ▸ rfl))
              refine Or.inr ⟨malformed (goString "missing CRLF"), ?_, malformed_is _⟩
              show readBulkString q = _
              rw [readBulkString, readLine_noFeed hfeed]
          | bulkString s =>
              obtain ⟨rfl, hq⟩ := List.cons_prefix_cons.mp hp
              exact Or.inr (readBulkString_cut hwire hq (fun h => hproper (h ▸ rfl)))
          | array items =>
              rw [show writeValue (.array items) = arrayHeader items ++ writeValues items by
                rw [writeValue, arrayHeader, List.cons_append]] at hp hproper
              rcases cut_append hp hproper with ⟨hline, hne⟩ | ⟨r, hr, hitems, hne⟩
              · obtain ⟨rfl, hq⟩ := List.cons_prefix_cons.mp hline
                have hfeed : 10 ∉ q :=
                  noFeed_of_cut (formatInt_noFeed _) hq (fun h => hne (h ▸ rfl))
                refine Or.inr ⟨malformed (goString "missing CRLF"), ?_, malformed_is _⟩
                show readArray _ q = _
                rw [readArray, readLine_noFeed hfeed]
              · obtain ⟨before, w, after, p', rfl, rfl, hp', hne'⟩ :=
                  cut_writeValues hitems hne
                have hw : w.Wire := (Value.wireAll_iff _).mp hwire.2 w (by simp)
                have hless : p'.length ≤ n := by
                  have hlength := congrArg List.length hr
                  simp only [arrayHeader, List.length_cons, List.length_append] at hlength
                  omega
                rcases ih hless hw hp' hne' with hfront | ⟨e, he, hmalformed⟩
                · rw [hr]
                  exact Or.inl (InFront.item hfront)
                · refine Or.inr ⟨e, ?_, hmalformed⟩
                  have hread := readNext_arrayHeader hwire he
                  rwa [← hr, readNext, List.length_cons, readValue] at hread

end Values

/-- What the reader reports at a proper cut of a value. -/
theorem readNext_cut_iff
    {v : Value} {p : Bytes}
    (hwire : v.Wire)
    (hp : p <+: writeValue v)
    (hproper : p ≠ writeValue v) :
    (InFront v p ∧ readNext p = .error .eof) ∨
    (¬ InFront v p ∧ ∃ e, readNext p = .error e ∧ e.Malformed) := by
  rcases readNext_cut p.length (Nat.le_refl _) hwire hp hproper with hfront | ⟨e, he, hmal⟩
  · exact Or.inl ⟨hfront, readNext_inFront hfront hwire⟩
  · refine Or.inr ⟨?_, e, he, hmal⟩
    intro hfront
    rw [readNext_inFront hfront hwire] at he
    cases he
    obtain ⟨err, herr, _⟩ := hmal
    cases herr

section Connection

variable {β γ : Type} [Backend β] [Journal γ]

/-- A connection writes the replies, and one more if its input ends in an error. -/
theorem handleConn_written
    {envs : Nat → RequestEnv γ} {input written : Bytes} {replies : List Value}
    {s t : Service β γ}
    (h : handleConn envs input s = .ok (replies, written) t) :
    written = writeValues (replies ++ (readAll input).2.replies) := by
  have hconn : wp (handleConn envs input)
      (fun r _ => r.2 = writeValues (r.1 ++ (readAll input).2.replies))
      (fun _ _ => True) (fun _ => True) s := by
    rw [handleConn, wp_bind]
    exact wp_mono wp_exact (fun _ _ _ => rfl)
      (fun _ _ _ => trivial) (fun _ _ => trivial)
  have hwritten := wp_of_ok hconn h
  exact hwritten

/-- Behind complete requests, the connection ends as the read of the rest does. -/
theorem handleConn_clean_iff
    {envs : Nat → RequestEnv γ} {p written : Bytes} {vs replies : List Value}
    {s t : Service β γ} {e : ReadEnd}
    (hwire : ∀ w ∈ vs, w.Wire)
    (he : readNext p = .error e)
    (h : handleConn envs (writeValues vs ++ p) s = .ok (replies, written) t) :
    written = writeValues replies ↔ e = .eof := by
  have hall : readAll (writeValues vs ++ p) = (vs, e) :=
    readLoop_writeValues he vs _ ((Value.wireAll_iff vs).mpr hwire) (Nat.lt_succ_self _)
  rw [handleConn_written h, hall]
  cases e with
  | eof =>
      simp [ReadEnd.replies]
  | fails err =>
      refine iff_of_false ?_ nofun
      intro heq
      have hlength := congrArg List.length heq
      have hpos := writeValue_pos (errorReply err)
      rw [ReadEnd.replies, writeValues_append, List.length_append, writeValues,
        List.length_append] at hlength
      omega

end Connection

/--
Take a value that the reader can return and cut its bytes short.  The reader then
returns no value.  It reports the end of the input if nothing is left and a malformed
value otherwise, and a connection that ends so behind complete requests closes without
an error reply only if nothing is left, exactly if nothing is left or the cut does not
fall in front of an item of an array.
-/
theorem truncated_request_malformed
    {v : Value} {p : Bytes}
    (hv : ∃ bytes rest, readNext bytes = .ok (v, rest))
    (hp : p <+: writeValue v)
    (hproper : p ≠ writeValue v) :
    (∃ e, readNext p = .error e) ∧
    (((p = [] → readNext p = .error .eof) ∧
      (p ≠ [] →
        ∃ err, readNext p = .error (.fails err) ∧ err.is .errMalformedRESP = true) ∧
      (∀ vs : List Value, (∀ w ∈ vs, w.Wire) →
        ∀ (β γ : Type) [Backend β] [Journal γ] (envs : Nat → RequestEnv γ)
          (s t : Service β γ) (replies : List Value) (written : Bytes),
          handleConn envs (writeValues vs ++ p) s = .ok (replies, written) t →
          (written = writeValues replies ↔ p = []))) ↔
      (p = [] ∨ ¬ InFront v p)) := by
  obtain ⟨bytes, rest, hbytes⟩ := hv
  have hwire := readValue_wire _ bytes v rest hbytes
  rcases readNext_cut_iff hwire hp hproper with ⟨hfront, heof⟩ | ⟨hfront, e, he, err, rfl, hmal⟩
  · refine ⟨⟨_, heof⟩, ?_, ?_⟩
    · rintro ⟨_, hmalformed, _⟩
      by_contra hnot
      obtain ⟨err, herr, _⟩ := hmalformed (fun h => hnot (Or.inl h))
      rw [heof] at herr
      cases herr
    · rintro (hnil | hnot)
      · refine ⟨fun _ => heof, fun h => absurd hnil h, ?_⟩
        intro vs hvs β γ _ _ envs s t replies written hconn
        exact iff_of_true ((handleConn_clean_iff hvs heof hconn).mpr rfl) hnil
      · exact absurd hfront hnot
  · have hne : p ≠ [] := fun h => hfront (h ▸ InFront.start v)
    refine ⟨⟨_, he⟩, fun _ => Or.inr hfront, fun _ => ⟨fun h => absurd h hne, ?_, ?_⟩⟩
    · exact fun _ => ⟨err, he, hmal⟩
    · intro vs hvs β γ _ _ envs s t replies written hconn
      refine iff_of_false (fun h => ?_) hne
      cases (handleConn_clean_iff hvs he hconn).mp h

/-- A ping is a value that the reader returns. -/
theorem ping_wire :
    (Value.array [.bulkString pingName]).Wire := by
  refine ⟨by decide, ?_, trivial⟩
  show pingName.length ≤ maxBulkLength
  decide +kernel

/-- The cut of a ping inside its only item is not one in front of it. -/
theorem not_inFront_ping :
    ¬ InFront (.array [.bulkString pingName]) (goString "*1\r\n$4\r\nPI") := by
  intro hfront
  generalize hv : Value.array [.bulkString pingName] = v at hfront
  generalize hp : goString "*1\r\n$4\r\nPI" = p at hfront
  cases hfront with
  | start =>
      revert hp
      decide +kernel
  | @item before after w q hitem =>
      have hitems : [.bulkString pingName] = before ++ w :: after := Value.array.inj hv
      cases before with
      | nil =>
          cases hitems
          cases hitem
          revert hp
          decide +kernel
      | cons first before =>
          have hlength := congrArg List.length hitems
          simp at hlength

/-- A ping of which half the name has arrived. -/
theorem truncated_request_malformed_item :
    ∃ err,
      readNext (goString "*1\r\n$4\r\nPI") = .error (.fails err) ∧
      err.is .errMalformedRESP = true := by
  have hbytes : writeValue (.array [.bulkString pingName]) =
      goString "*1\r\n$4\r\nPI" ++ goString "NG\r\n" := by
    decide +kernel
  obtain ⟨_, hiff⟩ := truncated_request_malformed (p := goString "*1\r\n$4\r\nPI")
    ⟨_, [], readNext_writeValue ping_wire []⟩ (by rw [hbytes]; exact List.prefix_append _ _)
    (by rw [hbytes]; decide +kernel)
  exact (hiff.mpr (Or.inr not_inFront_ping)).2.1 (by decide +kernel)

/--
A ping of which only the length of its array has arrived: the reader sees the end of
the input, and the connection takes it for a clean close.
-/
theorem truncated_array_is_clean_close :
    ∃ (v : Value) (p : Bytes),
      (∃ bytes rest, readNext bytes = .ok (v, rest)) ∧
      p <+: writeValue v ∧
      p ≠ writeValue v ∧
      p = goString "*1\r\n" ∧
      readNext p = .error .eof ∧
      readAll p = ([], .eof) := by
  have hbytes : writeValue (.array [.bulkString pingName]) =
      goString "*1\r\n" ++ goString "$4\r\nPING\r\n" := by
    decide +kernel
  have hread : readNext (goString "*1\r\n") = .error .eof := by
    rfl
  refine ⟨.array [.bulkString pingName], goString "*1\r\n",
    ⟨_, [], readNext_writeValue ping_wire []⟩, ?_, ?_, rfl, hread, ?_⟩
  · rw [hbytes]
    exact List.prefix_append _ _
  · rw [hbytes]
    decide +kernel
  · exact readLoop_writeValues hread [] _ trivial (Nat.lt_succ_self _)

end Moxy
