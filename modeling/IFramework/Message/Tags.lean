import IFramework.Infrastructure.ObjectId
import IFramework.Theory.Separator

/-!
# Message tags

`MessageContext` keeps the tags of a message in one header, with commas between them, and drops the
empty parts when it reads them. A subscriber that rebuilds the context from the headers passes what
it reads to the tag filter of the topic, and commits the offset of what the filter rejects. It sees
the tags of the publisher exactly if none of them is empty or has a comma in it
(`tagsSurvive_iff`).
-/

namespace IFramework.Message

open Separator
open IFramework.Infrastructure (Text unit text)

/-- What an `IMessage` gives to its context. -/
structure TaggedMessage where
  id : Option Text
  topic : Option Text
  tags : Option (List Text)

/-- The headers of a `PayloadMessage`: a header that is not there and one that is null are read
alike. -/
structure PayloadMessage where
  headers : String → Option Text

/-- A `MessageContext`. -/
structure TaggedContext where
  payloadMessage : PayloadMessage

namespace TaggedContext

/-- `Headers[name] = value`. -/
def setHeader (context : TaggedContext) (name : String) (value : Option Text) : TaggedContext :=
  ⟨⟨fun other => if other = name then value else context.payloadMessage.headers other⟩⟩

/-- `Headers.TryGetValue(name)`. -/
def header (context : TaggedContext) (name : String) : Option Text :=
  context.payloadMessage.headers name

/-- `Topic`. -/
def topic (context : TaggedContext) : Option Text := context.header "Topic"

/-- The getter of `Tags`. -/
def tags (context : TaggedContext) : Option (List Text) :=
  (context.header "Tags").map fun value => (value.splitOn (unit ',')).filter (· ≠ [])

/-- The setter of `Tags`. -/
def setTags (context : TaggedContext) (value : Option (List Text)) : TaggedContext :=
  context.setHeader "Tags"
    (if 0 < (value.getD []).length then some ([unit ','].intercalate (value.getD [])) else none)

/-- The constructor for a message, with the time and the message code that it writes. -/
def new (sentTime messageCode : Text) (message : TaggedMessage) (id : Option Text) :
    TaggedContext :=
  let context : TaggedContext := ⟨⟨fun _ => none⟩⟩
  let context := context.setHeader "SentTime" (some sentTime)
  let context := context.setHeader "MessageType" (some messageCode)
  let context := context.setHeader "MessageId" (if id.getD [] = [] then message.id else id)
  (context.setHeader "Topic" message.topic).setTags message.tags

/-- The constructor for the payload that a consumer has received. -/
def ofPayload (payloadMessage : PayloadMessage) : TaggedContext := ⟨payloadMessage⟩

end TaggedContext

/-- A tag filter; `none` when it throws. -/
abbrev TagFilter := Option (List Text) → Option Bool

/-- What becomes of a received context. -/
inductive Received where
  | processed
  | committed
  deriving DecidableEq

/-- One round of `OnMessagesReceived`. The lookup of a null topic throws, and what throws is
committed. -/
def receive (tagFilters : Text → Option TagFilter) (topic : Option Text)
    (tags : Option (List Text)) : Received :=
  match topic with
  | none => .committed
  | some topic =>
    match tagFilters topic with
    | none => .processed
    | some tagFilter => if tagFilter tags = some true then .processed else .committed

/-- `OnMessagesReceived`. -/
def onMessagesReceived (tagFilters : Text → Option TagFilter) (contexts : List TaggedContext) :
    List Received :=
  contexts.map fun context => receive tagFilters context.topic context.tags

/-- The tags are read as they were set, here and where the context is rebuilt, and so the filter
decides by them. -/
def TagsSurvive (context : TaggedContext) (tags : List Text) : Prop :=
  let published := context.setTags (some tags)
  let rebuilt := TaggedContext.ofPayload published.payloadMessage
  published.tags = some tags ∧ rebuilt.tags = some tags ∧
    ∀ tagFilters, onMessagesReceived tagFilters [rebuilt] =
      [receive tagFilters context.topic (some tags)]

section Tags

variable {context : TaggedContext} {tags : List Text}

@[simp] theorem header_setTags (context : TaggedContext) (value : Option (List Text))
    {name : String} (h : name ≠ "Tags") : (context.setTags value).header name = context.header name :=
  if_neg h

theorem tags_setTags (hne : tags ≠ []) :
    (context.setTags (some tags)).tags =
      some ((([unit ','].intercalate tags).splitOn (unit ',')).filter (· ≠ [])) := by
  have hlength : 0 < tags.length := List.length_pos_iff.2 hne
  simp [TaggedContext.tags, TaggedContext.setTags, TaggedContext.header, TaggedContext.setHeader,
    hlength]

theorem filter_splitOn_iff (hne : tags ≠ []) :
    (([unit ','].intercalate tags).splitOn (unit ',')).filter (· ≠ []) = tags ↔
      ∀ tag ∈ tags, tag ≠ [] ∧ unit ',' ∉ tag := by
  constructor
  · intro h tag htag
    rw [← h, List.mem_filter] at htag
    exact ⟨of_decide_eq_true htag.2, not_mem_of_mem_splitOn htag.1⟩
  · intro h
    rw [List.splitOn_intercalate _ (fun tag htag => (h tag htag).2) hne, List.filter_eq_self]
    exact fun tag htag => decide_eq_true (h tag htag).1

/-- Tags survive exactly if none is empty or has a comma in it. -/
theorem tagsSurvive_iff (context : TaggedContext) (hne : tags ≠ []) :
    TagsSurvive context tags ↔ ∀ tag ∈ tags, tag ≠ [] ∧ unit ',' ∉ tag := by
  rw [← filter_splitOn_iff hne]
  have hread : (context.setTags (some tags)).tags =
      some ((([unit ','].intercalate tags).splitOn (unit ',')).filter (· ≠ [])) :=
    tags_setTags hne
  constructor
  · rintro ⟨hpublished, -, -⟩
    rw [hread] at hpublished
    exact Option.some.inj hpublished
  · intro hsplit
    rw [hsplit] at hread
    refine ⟨hread, hread, ?_⟩
    intro tagFilters
    have htopic : (context.setTags (some tags)).topic = context.topic :=
      header_setTags context _ (by decide)
    simp only [onMessagesReceived, TaggedContext.ofPayload, List.map_cons, List.map_nil]
    rw [hread, htopic]

end Tags

theorem tagsSurvive_iff_two_tags :
    [text "vip", text "eu"] ≠ [] ∧
      TagsSurvive (.new (text "now") (text "code") ⟨none, some (text "orders"), none⟩ none)
        [text "vip", text "eu"] :=
  ⟨by decide, (tagsSurvive_iff _ (by decide)).2 (by decide)⟩

/-- A tag with a comma comes back as two, so that a filter for it drops the event; and an empty tag
does not come back. -/
theorem not_tagsSurvive :
    (∀ context, ¬ TagsSurvive context [text "a,b"] ∧ ¬ TagsSurvive context [[]]) ∧
      onMessagesReceived (fun _ => some fun tags => some (tags == some [text "a,b"]))
        [.new (text "now") (text "code") ⟨none, some (text "orders"), some [text "a,b"]⟩ none] =
        [.committed] := by
  refine ⟨?_, by decide⟩
  intro context
  constructor
  · rintro ⟨hpublished, -, -⟩
    rw [tags_setTags (by decide)] at hpublished
    exact absurd hpublished (by decide)
  · rintro ⟨hpublished, -, -⟩
    rw [tags_setTags (by decide)] at hpublished
    exact absurd hpublished (by decide)

end IFramework.Message
