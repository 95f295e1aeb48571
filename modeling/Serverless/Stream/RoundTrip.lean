import Serverless.Model.PackagePaths
import Serverless.Model.StreamCodec

/-!
# Nothing is lost on the stream

Identifiers, numbers and times are read back from the texts they are sent as, whether the client
delivers texts or bytes; so every message that the producer has built is one task of the consumer,
in the order of the response.
-/
namespace Serverless.Model.Wire

open Serverless.Library

variable {py : PyText}

/-! ## Texts -/

/-- A pattern whose first character does not occur is not replaced. -/
theorem removeAll_of_not_mem {p : Char} {pattern cs : List Char} (h : p ∉ cs) :
    removeAll (p :: pattern) 0 cs = cs := by
  induction cs with
  | nil => rfl
  | cons c cs ih =>
    obtain ⟨hc, hcs⟩ := not_or.mp (mt List.mem_cons.mpr h)
    rw [removeAll, ih hcs, if_neg]
    simp [List.isPrefixOf, hc]

/-- Letters and braces do not occur in an identifier. -/
theorem not_mem_str {u : UUID} {c : Char} (hdash : c ≠ '-') (h : ∀ d, Nat.digitChar d ≠ c) :
    c ∉ u.str.toList := by
  intro hm
  rcases UUID.mem_str hm with hc | ⟨d, hc⟩
  · exact hdash hc
  · exact h d hc.symm

/-- **`UUID(str(u))` is `u`.** -/
theorem uuid_str (u : UUID) : uuid py u.str = .ok u := by
  have hu : 'u' ∉ u.str.toList :=
    not_mem_str (by decide) fun d => Nat.digitChar_ne 'u' (by decide)
  have hurn : removeAll "urn:".toList 0 u.str.toList = u.str.toList := removeAll_of_not_mem hu
  have huuid : removeAll "uuid:".toList 0 u.str.toList = u.str.toList := removeAll_of_not_mem hu
  have hbrace : ∀ c ∈ u.str.toList, isBrace c = false := by
    intro c hc
    have hopen : c ≠ '{' := fun h =>
      not_mem_str (by decide) (fun d => Nat.digitChar_ne '{' (by decide)) (h ▸ hc)
    have hclose : c ≠ '}' := fun h =>
      not_mem_str (by decide) (fun d => Nat.digitChar_ne '}' (by decide)) (h ▸ hc)
    simp [isBrace, hopen, hclose]
  have hbound : u.toNat < 16 ^ 32 := lt_of_lt_of_eq u.isLt (by norm_num)
  unfold uuid
  rw [hurn, huuid]
  dsimp only
  rw [Numerals.dropEnds_eq_self hbrace, UUID.filter_str]
  rw [if_neg (by simp), Numerals.readInt_hexChars (by decide), Nat.mod_eq_of_lt hbound]
  have hrange : (0 : Int) ≤ (u.toNat : Int) ∧ (u.toNat : Int) < 2 ^ 128 := by
    have hlt := u.isLt
    omega
  dsimp only
  rw [if_pos hrange, BitVec.ofInt_natCast, BitVec.ofNat_toNat, BitVec.setWidth_eq]

/-! ## Messages -/

theorem int_toDigits (n : Nat) : int py (String.ofList (Nat.toDigits 10 n)) = .ok (n : Int) := by
  rw [int, String.toList_ofList, Numerals.readInt_toDigits]

theorem fromisoformat_isoformat (t : DateTime) :
    fromisoformat py (String.ofList t.isoformat) = .ok t := by
  rw [fromisoformat, String.toList_ofList, DateTime.fromisoformat_isoformat]

/-- How the client returns a text. -/
inductive Delivery where
  | text
  | bytes

def deliver (text : String) : Delivery → RedisValue
  | .text => .str text
  | .bytes => .bytes (Utf8.encode text.toList)

theorem decodeRedisValue_deliver (text : String) (how : Delivery) :
    decodeRedisValue (deliver text how) = .ok text := by
  cases how with
  | text => rfl
  | bytes =>
    rw [deliver, decodeRedisValue, Utf8.decodeStrict_encode]
    dsimp only
    rw [String.ofList_toList]

/-- Entries that are all decoded are decoded in order. -/
theorem mapM_ok {α β : Type} {f : α → Except DecodeError β} {g : α → β} {entries : List α}
    (h : ∀ a ∈ entries, f a = .ok (g a)) : entries.mapM f = .ok (entries.map g) := by
  induction entries with
  | nil => rfl
  | cons a entries ih =>
    have hrest := ih fun b hb => h b (List.mem_cons_of_mem _ hb)
    rw [List.mapM_cons, h a List.mem_cons_self, hrest]
    rfl

/-- `how` says for every field how its name and its value are returned. -/
def deliverFields (how : String → Delivery × Delivery) (fields : List (String × String)) :
    StreamFields :=
  fields.map fun (name, value) => (deliver name (how name).1, deliver value (how name).2)

theorem normalizeStreamFields_deliver (how : String → Delivery × Delivery)
    (fields : List (String × String)) :
    normalizeStreamFields (deliverFields how fields) = .ok fields := by
  unfold normalizeStreamFields deliverFields
  rw [List.mapM_map, mapM_ok (g := id), List.map_id]
  intro field hfield
  dsimp only [Function.comp]
  rw [decodeRedisValue_deliver, decodeRedisValue_deliver]
  rfl

/-- With different names every item is found. -/
theorem item_of_nodup {fields : List (String × String)} (hnodup : (fields.map Prod.fst).Nodup)
    {p : String × String} (hp : p ∈ fields) : item fields p.1 = .ok p.2 := by
  have hlookup : ∀ l : List (String × String), (l.map Prod.fst).Nodup → p ∈ l →
      l.lookup p.1 = some p.2 := by
    intro l hl hmem
    induction l with
    | nil => cases hmem
    | cons q l ih =>
      rw [List.map_cons, List.nodup_cons] at hl
      rcases List.mem_cons.mp hmem with rfl | hmem
      · exact List.lookup_cons_self
      · have hne : p.1 ≠ q.1 := fun h => hl.1 (h ▸ List.mem_map_of_mem hmem)
        rw [List.lookup_cons, beq_eq_false_iff_ne.mpr hne]
        exact ih hl.2 hmem
  have hreverse : (fields.reverse.map Prod.fst).Nodup := by
    rw [List.map_reverse]
    exact List.nodup_reverse.mpr hnodup
  rw [item, hlookup _ hreverse (List.mem_reverse.mpr hp)]

theorem nodup_names (invocation : Invocation) (attemptNumber : Nat) :
    ((buildInvocationMessageFields invocation attemptNumber).map Prod.fst).Nodup := by
  show ["invocation_id", "function_version_id", "owner_id", "attempt_number", "queued_at",
    "deadline_at"].Nodup
  decide

/-- A message that the producer has sent, and how it comes back. -/
structure Sent where
  invocation : Invocation
  attemptNumber : Nat
  messageId : String
  idAs : Delivery
  fieldsAs : String → Delivery × Delivery

namespace Sent

/-- The message as it stands in a response. -/
def message (m : Sent) : Message :=
  (deliver m.messageId m.idAs,
    deliverFields m.fieldsAs (buildInvocationMessageFields m.invocation m.attemptNumber))

/-- The task that was meant. -/
def task (m : Sent) (recovered : Bool) : InvocationTask where
  streamMessageId := m.messageId
  invocationId := m.invocation.id
  functionVersionId := m.invocation.functionVersionId
  ownerId := m.invocation.ownerId
  attemptNumber := m.attemptNumber
  queuedAt := m.invocation.queuedAt
  deadlineAt := m.invocation.deadlineAt
  recovered := recovered

/-- **A message is decoded to the task that was meant.** -/
theorem parse_message (m : Sent) (recovered : Bool) :
    parseInvocationTask py m.message.1 m.message.2 recovered = .ok (m.task recovered) := by
  have hitem : ∀ p ∈ buildInvocationMessageFields m.invocation m.attemptNumber,
      item (buildInvocationMessageFields m.invocation m.attemptNumber) p.1 = .ok p.2 :=
    fun p hp => item_of_nodup (nodup_names _ _) hp
  simp only [buildInvocationMessageFields, List.forall_mem_cons] at hitem
  obtain ⟨hid, hversion, howner, hnumber, hqueued, hdeadline, -⟩ := hitem
  unfold parseInvocationTask message
  dsimp only
  rw [normalizeStreamFields_deliver, decodeRedisValue_deliver]
  simp only [buildInvocationMessageFields, bind, Except.bind]
  rw [hid]
  simp only [uuid_str]
  rw [hversion]
  simp only [uuid_str]
  rw [howner]
  simp only [uuid_str]
  rw [hnumber]
  simp only [int_toDigits]
  rw [hqueued]
  simp only [fromisoformat_isoformat]
  rw [hdeadline]
  simp only [fromisoformat_isoformat]
  rfl

end Sent

/-- **The codec loses nothing**: every message is decoded to its task, and every response to the
tasks of its messages, one for each and in order. -/
theorem codec_lossless (py : PyText) :
    (∀ (m : Sent) (recovered : Bool),
      parseInvocationTask py m.message.1 m.message.2 recovered = .ok (m.task recovered)) ∧
    (∀ streams : List (RedisValue × List Sent),
      parseXreadgroupResponse py (some (streams.map fun s => (s.1, s.2.map Sent.message))) =
        .ok ((streams.flatMap Prod.snd).map (Sent.task · false))) ∧
    (∀ (nextStartId : String) (how : Delivery) (messages : List Sent),
      parseXautoclaimResponse py (some ⟨deliver nextStartId how, messages.map Sent.message⟩) =
        .ok ⟨nextStartId, messages.map (Sent.task · true)⟩) ∧
    parseXreadgroupResponse py none = .ok [] ∧
    parseXautoclaimResponse py none = .ok ⟨"0-0", []⟩ := by
  have hmessages : ∀ (messages : List Sent) (recovered : Bool),
      ((messages.map Sent.message).mapM fun m => parseInvocationTask py m.1 m.2 recovered) =
        .ok (messages.map (Sent.task · recovered)) := by
    intro messages recovered
    rw [List.mapM_map]
    exact mapM_ok fun m _ => m.parse_message recovered
  refine ⟨fun m recovered => m.parse_message recovered, fun streams => ?_,
    fun nextStartId how messages => ?_, rfl, rfl⟩
  · unfold parseXreadgroupResponse
    rw [Option.getD_some, List.mapM_map,
      mapM_ok (g := fun s => s.2.map (Sent.task · false)) fun s _ => hmessages s.2 false]
    show Except.ok (streams.map fun s => s.2.map (Sent.task · false)).flatten = _
    rw [List.map_flatMap, List.flatMap_def]
  · unfold parseXautoclaimResponse
    dsimp only
    rw [decodeRedisValue_deliver, hmessages messages true]
    rfl

/-! ## The task of the platform model -/

/-- A time as the platform model counts it. -/
def time (t : DateTime) : Time := t.microseconds

/-- The columns of a row that go into its message. -/
structure Invocation.Represents (i : Invocation) (row : Model.Invocation) : Prop where
  id : row.id = i.id
  functionVersionId : row.functionVersionId = i.functionVersionId
  ownerId : row.ownerId = i.ownerId
  queuedAt : row.queuedAt = time i.queuedAt
  deadlineAt : row.deadlineAt = time i.deadlineAt

/-- The task without its texts; `number` counts the ids of the stream. -/
def InvocationTask.abstract (number : String → StreamId) (task : InvocationTask) :
    Model.InvocationTask where
  streamMessageId := number task.streamMessageId
  invocationId := task.invocationId
  functionVersionId := task.functionVersionId
  ownerId := task.ownerId
  attemptNumber := task.attemptNumber.toNat
  queuedAt := time task.queuedAt
  deadlineAt := time task.deadlineAt
  recovered := task.recovered

/-- **Building and parsing in the platform model are what the codec does.** -/
theorem parse_abstract (m : Sent) (recovered : Bool) (number : String → StreamId)
    {row : Model.Invocation} (h : m.invocation.Represents row) :
    ∃ task, parseInvocationTask py m.message.1 m.message.2 recovered = .ok task ∧
      task.abstract number = Model.parseInvocationTask (number m.messageId)
        (Model.buildInvocationMessageFields row m.attemptNumber) recovered := by
  refine ⟨m.task recovered, m.parse_message recovered, ?_⟩
  unfold InvocationTask.abstract Model.parseInvocationTask Model.buildInvocationMessageFields
  dsimp only
  rw [h.id, h.functionVersionId, h.ownerId, h.queuedAt, h.deadlineAt]
  rfl

/-- Two tasks that the platform model does not tell apart are one task. -/
theorem abstract_injective {number : String → StreamId} (hnumber : Function.Injective number)
    {a b : InvocationTask} (ha : 0 ≤ a.attemptNumber) (hb : 0 ≤ b.attemptNumber)
    (h : a.abstract number = b.abstract number) : a = b := by
  have htime : Function.Injective time :=
    fun s t h => DateTime.microseconds_injective (Int.ofNat_inj.mp h)
  cases a
  cases b
  simp only [InvocationTask.abstract, Model.InvocationTask.mk.injEq] at h
  obtain ⟨hid, rfl, rfl, rfl, hn, hq, hd, rfl⟩ := h
  dsimp only at ha hb
  obtain rfl := hnumber hid
  obtain rfl := htime hq
  obtain rfl := htime hd
  have hn' : _ = _ := Int.toNat_of_nonneg ha
  rw [hn, Int.toNat_of_nonneg hb] at hn'
  rw [hn']

end Serverless.Model.Wire
