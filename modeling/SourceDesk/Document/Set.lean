import SourceDesk.Document.Basic

/-!
Sets of documents in order of insertion. An index tells the slot of each key, and a
document is found under the key that it was inserted with, which is the name it had
then: the name may be changed in place, and the index stays.
-/

namespace SourceDesk

/-- The documents of a set, slot by slot, and the slots of the keys. -/
structure DocumentSet where
  /-- The keys with their slots, as they were added. -/
  index : List (String × Nat)
  documents : List Document
  deriving DecidableEq, Repr

namespace DocumentSet

def empty : DocumentSet := ⟨[], []⟩

/-- The keys in the order in which they were added. -/
def keys (s : DocumentSet) : List String := s.index.map Prod.fst

/-- The slot of a key. -/
def slot? (s : DocumentSet) (key : String) : Option Nat := s.index.lookup key

/-- What building a set by insertion and changing its documents in place keeps: another
key for each slot, and the slots as the documents stand in them. -/
structure WellFormed (s : DocumentSet) : Prop where
  nodup : s.keys.Nodup
  slots : s.index.map Prod.snd = List.range s.documents.length

/-- Puts a document into the slot of its name, or behind all others if there is none;
answers the document that was in the slot. -/
def exchange (s : DocumentSet) (d : Document) : DocumentSet × Option Document :=
  match s.slot? d.name with
  | some i => ({ s with documents := s.documents.set i d }, s.documents[i]?)
  | none => (⟨s.index ++ [(d.name, s.documents.length)], s.documents ++ [d]⟩, none)

/-- The set with a document put into it. -/
def insert (s : DocumentSet) (d : Document) : DocumentSet := (s.exchange d).1

/-- The document under a key. -/
def get? (s : DocumentSet) (key : String) : Option Document :=
  (s.slot? key).bind fun i => s.documents[i]?

/-- The document under a key, with its slot. -/
def find? (s : DocumentSet) (key : String) : Option (Nat × Document) :=
  (s.slot? key).bind fun i => (s.documents[i]?).map fun d => (i, d)

def contains (s : DocumentSet) (key : String) : Bool := (s.slot? key).isSome

/-- Changes the document under a key, if there is one. -/
def modify (s : DocumentSet) (key : String) (f : Document → Document) : DocumentSet :=
  match s.slot? key with
  | some i => { s with documents := s.documents.modify i f }
  | none => s

/-- Changes every document. -/
def map (s : DocumentSet) (f : Document → Document) : DocumentSet :=
  { s with documents := s.documents.map f }

/-- Changes every document, each as its slot asks for. -/
def mapSlots (s : DocumentSet) (f : Nat → Document → Document) : DocumentSet :=
  { s with documents := s.documents.mapIdx f }

/-- The set of the documents of a list: the last one of each name, where the first
one came. -/
def ofList (ds : List Document) : DocumentSet := ds.foldl insert empty

def size (s : DocumentSet) : Nat := s.documents.length

def isEmpty (s : DocumentSet) : Bool := s.documents.isEmpty

def first? (s : DocumentSet) : Option Document := s.documents.head?

/-- The names of the documents, which need not be their keys. -/
def names (s : DocumentSet) : List String := s.documents.map Document.name

def toTexts (s : DocumentSet) : List NamedText := s.documents.map Document.toText

/-- Whether two indexes give the same keys the same slots. -/
def sameIndex (s t : DocumentSet) : Bool :=
  s.index.length == t.index.length && s.index.all fun (key, slot) => t.slot? key == some slot

/-- Equality of indexes and documents, up to the spelling of paths. -/
def same (s t : DocumentSet) : Bool :=
  s.sameIndex t && s.documents.length == t.documents.length &&
    (s.documents.zip t.documents).all fun (d, e) => d.same e

end DocumentSet

/-- The two sets of a session. -/
inductive Shelf where
  | sources
  | targets
  deriving DecidableEq, Repr

def Shelf.name : Shelf → String
  | .sources => "sources"
  | .targets => "targets"

/-- Where a document stands in a session. -/
structure Seat where
  shelf : Shelf
  slot : Nat
  deriving DecidableEq, Repr

end SourceDesk
