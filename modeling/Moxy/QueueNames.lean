import Moxy.Lib.RuneRange
import Moxy.Service

/-!
# Moxy: queue names and the storage they name

A queue name arrives over the network and becomes a file name and four Redis keys.  Two
loops over its runes guard that: `validQueueName` of the service, which the model states
on the bytes, and the one of `journalFileName`.  Both accept letters, digits, hyphen and
underscore, all of them ASCII, so both are tests of the bytes, whether or not the bytes
are UTF-8.

An accepted name has no brace, so it can be read off a key again, and the brace after it
is the first one that closes.  The keys of one queue therefore have one hash tag, and the
keys of two queues are different.
-/

namespace Moxy

open Lib

/-- The runes of a queue name. -/
def nameRune (r : Nat) : Bool :=
  decide (97 ≤ r ∧ r ≤ 122) || decide (65 ≤ r ∧ r ≤ 90) || decide (48 ≤ r ∧ r ≤ 57) ||
    r == 45 || r == 95

/-- `validQueueName` as the service computes it, rune by rune. -/
def validQueueNameRunes (queueName : GoString) : Bool :=
  if queueName = [] ∨ 64 < queueName.length then false
  else (runes queueName).all nameRune

/-- The file of a queue in the journal directory; `quote` prints a string in quotes. -/
def journalFileName (quote : GoString → GoString) (queueName : GoString) :
    Except GoError GoString :=
  if queueName = [] then .error (.text (goString "queue name must not be empty"))
  else if (runes queueName).all nameRune then .ok (queueName ++ goString ".wal")
  else
    .error (.text (goString "queue " ++ quote queueName ++ goString
      " cannot be journalled: names may use letters, digits, hyphen and underscore"))

/-- The keys of a queue. -/
structure RedisQueueKeys where
  ready : GoString
  processing : GoString
  processingLeases : GoString
  dead : GoString
deriving DecidableEq, Repr

/-- All keys of a queue. -/
def RedisQueueKeys.all (keys : RedisQueueKeys) : List GoString :=
  [keys.ready, keys.processing, keys.processingLeases, keys.dead]

/-- A name in braces. -/
def hashTag (queueName : GoString) : GoString :=
  goString "\x7b" ++ queueName ++ goString "\x7d"

/-- The keys of a named queue. -/
def newRedisQueueKeys (queueName : GoString) : RedisQueueKeys :=
  let start := goString "moxy:" ++ hashTag queueName
  { ready := start ++ goString ":ready"
    processing := start ++ goString ":processing"
    processingLeases := start ++ goString ":processing:leases"
    dead := start ++ goString ":dead" }

/-- The first position of a byte, or minus one. -/
def indexByte (s : GoString) (b : UInt8) : Int :=
  match s.findIdx? (· == b) with
  | some i => i
  | none => -1

/-- The part of a key from the first opening to the first closing brace. -/
def redisHashTag (key : GoString) : GoString :=
  let start := indexByte key 123
  let stop := indexByte key 125
  if start < 0 ∨ stop ≤ start then []
  else (key.take (stop + 1).toNat).drop start.toNat

/--
What Redis Cluster hashes of a key in the place of the whole key: the text between the
first opening brace and the next closing one, if there is such a text.
-/
def clusterTag (key : GoString) : Option GoString :=
  let rest := (key.dropWhile (· != 123)).tail
  let tag := rest.takeWhile (· != 125)
  if 125 ∈ rest ∧ tag ≠ [] then some tag else none

/-- A file name that stays in its directory. -/
def PlainFileName (name : GoString) : Prop :=
  47 ∉ name ∧ 92 ∉ name ∧ name ≠ goString "." ∧ name ≠ goString ".."

instance (name : GoString) : Decidable (PlainFileName name) :=
  inferInstanceAs (Decidable (_ ∧ _))

section Runes

theorem nameRune_ascii
    (r : Nat) (h : nameRune r = true) :
    r < 0x80 := by
  simp only [nameRune, Bool.or_eq_true, decide_eq_true_eq, beq_iff_eq] at h
  omega

theorem nameRune_byte
    (b : UInt8) :
    nameRune b.toNat = validQueueByte b := by
  have hle : ∀ x y : UInt8, decide (x ≤ y) = decide (x.toNat ≤ y.toNat) := fun _ _ => rfl
  have heq : ∀ y : UInt8, (b == y) = (b.toNat == y.toNat) := by
    intro y
    rw [Bool.eq_iff_iff, beq_iff_eq, beq_iff_eq, UInt8.toNat_inj]
  simp only [nameRune, validQueueByte, Bool.decide_and, hle, heq]
  rfl

/-- Both loops test the bytes, whatever the encoding. -/
theorem runes_all_nameRune
    (name : GoString) :
    (runes name).all nameRune = name.all validQueueByte := by
  rw [all_runes nameRune_ascii]
  exact congrArg name.all (funext nameRune_byte)

/-- The loop of the service and its byte test agree. -/
theorem validQueueNameRunes_eq
    (name : GoString) :
    validQueueNameRunes name = validQueueName name := by
  rw [validQueueNameRunes, validQueueName, runes_all_nameRune]
  by_cases hempty : name = []
  · rw [if_pos (Or.inl hempty), hempty]
    rfl
  · by_cases hlong : 64 < name.length
    · rw [if_pos (Or.inr hlong), decide_eq_false (Nat.not_le_of_lt hlong), Bool.and_false,
        Bool.false_and]
    · rw [if_neg (by simp [hempty, hlong]), decide_eq_true (Nat.le_of_not_lt hlong)]
      simp [hempty]

end Runes

/-- What is used of an accepted name: it is not empty, and its bytes are of a few kinds. -/
structure Accepted (name : GoString) : Prop where
  ne_nil : name ≠ []
  bytes : ∀ b ∈ name, validQueueByte b = true

theorem accepted_of_valid
    {name : GoString}
    (h : validQueueNameRunes name = true) :
    Accepted name := by
  rw [validQueueNameRunes_eq, validQueueName] at h
  simp only [Bool.and_eq_true, Bool.not_eq_true', List.isEmpty_eq_false_iff,
    List.all_eq_true] at h
  exact ⟨h.1.1, h.2⟩

/-- A byte of no accepted name. -/
theorem Accepted.not_mem
    {name : GoString} {b : UInt8}
    (h : Accepted name)
    (hb : validQueueByte b = false) :
    b ∉ name := by
  intro hmem
  rw [h.bytes b hmem] at hb
  cases hb

section Journal

variable {quote : GoString → GoString} {name : GoString}

theorem journalFileName_accepted
    (h : Accepted name) :
    journalFileName quote name = .ok (name ++ goString ".wal") := by
  rw [journalFileName, if_neg h.ne_nil, runes_all_nameRune,
    if_pos (List.all_eq_true.mpr h.bytes)]

theorem plainFileName_wal
    (h : Accepted name) :
    PlainFileName (name ++ goString ".wal") := by
  have habsent : ∀ b, validQueueByte b = false → b ∉ goString ".wal" →
      b ∉ name ++ goString ".wal" :=
    fun b hb hsuffix => List.not_mem_append (h.not_mem hb) hsuffix
  -- a name with the suffix is longer than the two directory names
  have hlong : ∀ dots : GoString, dots.length ≤ 2 → name ++ goString ".wal" ≠ dots := by
    intro dots hshort heq
    have hlength : (name ++ goString ".wal").length = name.length + 4 := List.length_append
    rw [heq] at hlength
    omega
  exact ⟨habsent 47 (by decide) (by decide), habsent 92 (by decide) (by decide),
    hlong _ (by decide), hlong _ (by decide)⟩

end Journal

section Keys

/-- The parts of the keys after the hash tag. -/
def keySuffixes : List GoString :=
  [goString ":ready", goString ":processing", goString ":processing:leases",
    goString ":dead"]

/-- The key of a queue with a suffix. -/
def queueKey (name suffix : GoString) : GoString :=
  goString "moxy:" ++ 123 :: (name ++ 125 :: suffix)

theorem all_newRedisQueueKeys
    (name : GoString) :
    (newRedisQueueKeys name).all = keySuffixes.map (queueKey name) := by
  have hkey : ∀ suffix, goString "moxy:" ++ hashTag name ++ suffix = queueKey name suffix := by
    intro suffix
    rw [hashTag, queueKey, show goString "\x7b" = [123] from rfl,
      show goString "\x7d" = [125] from rfl]
    simp only [List.append_assoc, List.cons_append, List.nil_append]
  simp only [RedisQueueKeys.all, newRedisQueueKeys, hkey, keySuffixes, List.map_cons,
    List.map_nil]

section FirstByte

variable {b : UInt8} {xs : GoString}

theorem ne_of_not_mem
    (h : b ∉ xs) :
    ∀ x ∈ xs, (x != b) = true :=
  fun _ hx => bne_iff_ne.mpr (fun heq => h (heq ▸ hx))

theorem takeWhile_ne_append
    (h : b ∉ xs) (ys : GoString) :
    (xs ++ b :: ys).takeWhile (· != b) = xs := by
  rw [List.takeWhile_append_of_pos (ne_of_not_mem h), List.takeWhile_cons_of_neg (by simp),
    List.append_nil]

theorem dropWhile_ne_append
    (h : b ∉ xs) (ys : GoString) :
    (xs ++ b :: ys).dropWhile (· != b) = b :: ys := by
  rw [List.dropWhile_append_of_pos (ne_of_not_mem h), List.dropWhile_cons_of_neg (by simp)]

theorem indexByte_append
    (h : b ∉ xs) (ys : GoString) :
    indexByte (xs ++ b :: ys) b = xs.length := by
  have hnone : xs.findIdx? (· == b) = none :=
    List.findIdx?_eq_none_iff.mpr (fun x hx => beq_eq_false_iff_ne.mpr (fun heq => h (heq ▸ hx)))
  have hfind : (xs ++ b :: ys).findIdx? (· == b) = some xs.length := by
    rw [List.findIdx?_append, hnone, List.findIdx?_cons, beq_self_eq_true]
    simp
  rw [indexByte, hfind]

end FirstByte

/-- The name and the suffix can be read off a key. -/
theorem queueKey_inj
    {a b s t : GoString}
    (ha : 125 ∉ a)
    (hb : 125 ∉ b)
    (h : queueKey a s = queueKey b t) :
    a = b ∧ s = t := by
  rw [queueKey, queueKey] at h
  have hrest := List.tail_eq_of_cons_eq (List.append_cancel_left h)
  have hname : a = b := by
    rw [← takeWhile_ne_append ha s, hrest, takeWhile_ne_append hb t]
  subst hname
  exact ⟨rfl, List.tail_eq_of_cons_eq (List.append_cancel_left hrest)⟩

theorem redisHashTag_queueKey
    {name : GoString} (h : 125 ∉ name) (suffix : GoString) :
    redisHashTag (queueKey name suffix) = hashTag name := by
  have hstart : indexByte (queueKey name suffix) 123 = (goString "moxy:").length :=
    indexByte_append (by decide) _
  have hsplit : queueKey name suffix = (goString "moxy:" ++ 123 :: name) ++ 125 :: suffix := by
    rw [queueKey, List.append_assoc, List.cons_append]
  have hstop : indexByte (queueKey name suffix) 125 =
      (goString "moxy:" ++ 123 :: name).length := by
    rw [hsplit]
    refine indexByte_append (List.not_mem_append (by decide) ?_) suffix
    exact List.not_mem_cons_of_ne_of_not_mem (by decide) h
  have hcut : (queueKey name suffix).take ((goString "moxy:" ++ 123 :: name).length + 1) =
      goString "moxy:" ++ hashTag name := by
    rw [hsplit, List.take_length_add_append, hashTag, List.append_assoc]
    rfl
  have hlength : (goString "moxy:" ++ 123 :: name).length =
      (goString "moxy:").length + (name.length + 1) := List.length_append
  rw [redisHashTag, hstart, hstop, if_neg (by omega), Int.toNat_natCast_add_one,
    Int.toNat_natCast, hcut, List.drop_left]

theorem clusterTag_queueKey
    {name : GoString}
    (h : 125 ∉ name)
    (hne : name ≠ [])
    (suffix : GoString) :
    clusterTag (queueKey name suffix) = some name := by
  have hrest : ((queueKey name suffix).dropWhile (· != 123)).tail = name ++ 125 :: suffix := by
    rw [queueKey, dropWhile_ne_append (by decide), List.tail_cons]
  rw [clusterTag, hrest, takeWhile_ne_append h]
  exact if_pos ⟨List.mem_append_right _ List.mem_cons_self, hne⟩

/-- The keys of two queues are different, and so are those of one queue. -/
theorem queueKeys_nodup
    {a b : GoString}
    (ha : 125 ∉ a)
    (hb : 125 ∉ b)
    (hne : a ≠ b) :
    ((newRedisQueueKeys a).all ++ (newRedisQueueKeys b).all).Nodup := by
  have hone : ∀ {name : GoString}, 125 ∉ name → (newRedisQueueKeys name).all.Nodup := by
    intro name hname
    rw [all_newRedisQueueKeys]
    exact (by decide : keySuffixes.Nodup).map (fun s t h => (queueKey_inj hname hname h).2)
  rw [List.nodup_append]
  refine ⟨hone ha, hone hb, ?_⟩
  rw [all_newRedisQueueKeys, all_newRedisQueueKeys]
  intro x hx y hy heq
  obtain ⟨s, _, rfl⟩ := List.mem_map.mp hx
  obtain ⟨t, _, rfl⟩ := List.mem_map.mp hy
  exact hne (queueKey_inj ha hb heq).1

end Keys

/--
Two queues whose names the service accepts have different journal files, both in the
journal directory, and no Redis key in common; all keys of a queue have its hash tag.
-/
theorem queue_names_never_share_storage
    {a b : GoString} (quote : GoString → GoString)
    (ha : validQueueNameRunes a = true)
    (hb : validQueueNameRunes b = true)
    (hne : a ≠ b) :
    (∃ fileA fileB,
      journalFileName quote a = .ok fileA ∧ journalFileName quote b = .ok fileB ∧
      fileA ≠ fileB ∧ PlainFileName fileA ∧ PlainFileName fileB) ∧
    ((newRedisQueueKeys a).all ++ (newRedisQueueKeys b).all).Nodup ∧
    ∀ key ∈ (newRedisQueueKeys a).all,
      redisHashTag key = hashTag a ∧ clusterTag key = some a := by
  have hA := accepted_of_valid ha
  have hB := accepted_of_valid hb
  have hbraceA : 125 ∉ a := hA.not_mem (by decide)
  refine ⟨?_, queueKeys_nodup hbraceA (hB.not_mem (by decide)) hne, ?_⟩
  · refine ⟨_, _, journalFileName_accepted hA, journalFileName_accepted hB, ?_,
      plainFileName_wal hA, plainFileName_wal hB⟩
    exact fun heq => hne (List.append_cancel_right heq)
  · intro key hkey
    rw [all_newRedisQueueKeys] at hkey
    obtain ⟨suffix, _, rfl⟩ := List.mem_map.mp hkey
    exact ⟨redisHashTag_queueKey hbraceA suffix, clusterTag_queueKey hbraceA hA.ne_nil suffix⟩

/-- A name that extends another, with a hyphen in the place of the colon of a key. -/
theorem queue_names_never_share_storage_extension :
    validQueueNameRunes (goString "jobs") = true ∧
    validQueueNameRunes (goString "jobs-dead") = true ∧
    redisHashTag (newRedisQueueKeys (goString "jobs")).processingLeases =
      goString "\x7bjobs\x7d" ∧
    ((newRedisQueueKeys (goString "jobs")).all ++
      (newRedisQueueKeys (goString "jobs-dead")).all).Nodup := by
  have hjobs : validQueueNameRunes (goString "jobs") = true := by
    rw [validQueueNameRunes_eq]
    decide
  have hdead : validQueueNameRunes (goString "jobs-dead") = true := by
    rw [validQueueNameRunes_eq]
    decide
  obtain ⟨_, hkeys, htags⟩ :=
    queue_names_never_share_storage (fun s => s) hjobs hdead (by decide)
  have hmem : (newRedisQueueKeys (goString "jobs")).processingLeases ∈
      (newRedisQueueKeys (goString "jobs")).all := by decide
  exact ⟨hjobs, hdead, (htags _ hmem).1, hkeys⟩

end Moxy
