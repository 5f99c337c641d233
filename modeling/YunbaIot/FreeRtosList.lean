import Mathlib.Logic.Function.Basic
import YunbaIot.LinkedRing

/-! list.c over any lists and any items: the links, and what the operations make of them. -/
namespace YunbaIot.FreeRtosList
open LinkedRing

def portMaxDelay : UInt32 := 0xffffffff

/- What a list item pointer can point to -/
inductive Node (κ ι : Type) where
  | xListEnd (pxList : κ)
  | item (pxItem : ι)
  deriving DecidableEq, Repr

/- The members of the xList and of the xListItem objects -/
structure Lists (κ ι : Type) where
  pxNext : Node κ ι → Node κ ι
  pxPrevious : Node κ ι → Node κ ι
  xItemValue : Node κ ι → UInt32
  pvContainer : ι → Option κ
  pxIndex : κ → Node κ ι
  uxNumberOfItems : κ → Nat

section Operations
variable {κ ι : Type} [DecidableEq κ] [DecidableEq ι]

def setNext (n v : Node κ ι) (m : Lists κ ι) : Lists κ ι := { m with pxNext := Function.update m.pxNext n v }
def setPrevious (n v : Node κ ι) (m : Lists κ ι) : Lists κ ι := { m with pxPrevious := Function.update m.pxPrevious n v }
def setValue (n : Node κ ι) (v : UInt32) (m : Lists κ ι) : Lists κ ι :=
  { m with xItemValue := Function.update m.xItemValue n v }
def setContainer (i : ι) (l : Option κ) (m : Lists κ ι) : Lists κ ι :=
  { m with pvContainer := Function.update m.pvContainer i l }
def setIndex (l : κ) (n : Node κ ι) (m : Lists κ ι) : Lists κ ι := { m with pxIndex := Function.update m.pxIndex l n }
def setCount (l : κ) (c : Nat) (m : Lists κ ι) : Lists κ ι :=
  { m with uxNumberOfItems := Function.update m.uxNumberOfItems l c }

def vListInitialise (pxList : κ) (m : Lists κ ι) : Lists κ ι :=
  let m := setIndex pxList (.xListEnd pxList) m
  let m := setValue (.xListEnd pxList) portMaxDelay m
  let m := setNext (.xListEnd pxList) (.xListEnd pxList) m
  let m := setPrevious (.xListEnd pxList) (.xListEnd pxList) m
  setCount pxList 0 m

def vListInitialiseItem (pxItem : ι) (m : Lists κ ι) : Lists κ ι := setContainer pxItem none m

def listSetListItemValue (pxListItem : ι) (xValue : UInt32) (m : Lists κ ι) : Lists κ ι := setValue (.item pxListItem) xValue m

def vListInsertEnd (pxList : κ) (pxNewListItem : ι) (m : Lists κ ι) : Lists κ ι :=
  let pxIndex := m.pxIndex pxList
  let m := setNext (.item pxNewListItem) pxIndex m
  let m := setPrevious (.item pxNewListItem) (m.pxPrevious pxIndex) m
  let m := setNext (m.pxPrevious pxIndex) (.item pxNewListItem) m
  let m := setPrevious pxIndex (.item pxNewListItem) m
  let m := setContainer pxNewListItem (some pxList) m
  setCount pxList (m.uxNumberOfItems pxList + 1) m

/- The for loop of vListInsert, which does not pass an item twice -/
def iterator (m : Lists κ ι) (xValueOfInsertion : UInt32) : Nat → Node κ ι → Option (Node κ ι)
  | 0, _ => none
  | steps+1, pxIterator =>
    if m.xItemValue (m.pxNext pxIterator) ≤ xValueOfInsertion then iterator m xValueOfInsertion steps (m.pxNext pxIterator)
    else some pxIterator

def insertionPlace (pxList : κ) (xValueOfInsertion : UInt32) (m : Lists κ ι) : Option (Node κ ι) :=
  if xValueOfInsertion = portMaxDelay then some (m.pxPrevious (.xListEnd pxList))
  else iterator m xValueOfInsertion (m.uxNumberOfItems pxList + 1) (.xListEnd pxList)

def vListInsert (pxList : κ) (pxNewListItem : ι) (m : Lists κ ι) : Option (Lists κ ι) := do
  let pxIterator ← insertionPlace pxList (m.xItemValue (.item pxNewListItem)) m
  let m := setNext (.item pxNewListItem) (m.pxNext pxIterator) m
  let m := setPrevious (m.pxNext (.item pxNewListItem)) (.item pxNewListItem) m
  let m := setPrevious (.item pxNewListItem) pxIterator m
  let m := setNext pxIterator (.item pxNewListItem) m
  let m := setContainer pxNewListItem (some pxList) m
  some (setCount pxList (m.uxNumberOfItems pxList + 1) m)

/- none where the item is on no list, which the code does not look at -/
def uxListRemove (pxItemToRemove : ι) (m : Lists κ ι) : Option (Nat × Lists κ ι) := do
  let item := Node.item pxItemToRemove
  let m := setPrevious (m.pxNext item) (m.pxPrevious item) m
  let m := setNext (m.pxPrevious item) (m.pxNext item) m
  let pxList ← m.pvContainer pxItemToRemove
  let m := if m.pxIndex pxList = item then setIndex pxList (m.pxPrevious item) m else m
  let m := setContainer pxItemToRemove none m
  let m := setCount pxList (m.uxNumberOfItems pxList - 1) m
  some (m.uxNumberOfItems pxList,m)

def listGetListItemValue (pxListItem : ι) (m : Lists κ ι) : UInt32 := m.xItemValue (.item pxListItem)

/- The node whose owner is the result -/
def listGetOwnerOfNextEntry (pxList : κ) (m : Lists κ ι) : Node κ ι × Lists κ ι :=
  let m := setIndex pxList (m.pxNext (m.pxIndex pxList)) m
  let m := if m.pxIndex pxList = .xListEnd pxList then setIndex pxList (m.pxNext (m.pxIndex pxList)) m else m
  (m.pxIndex pxList,m)

def listGetOwnerOfHeadEntry (pxList : κ) (m : Lists κ ι) : Node κ ι := m.pxNext (.xListEnd pxList)
def listListIsEmpty (pxList : κ) (m : Lists κ ι) : Bool := m.uxNumberOfItems pxList = 0
def listCurrentListLength (pxList : κ) (m : Lists κ ι) : Nat := m.uxNumberOfItems pxList
def listIsContainedWithin (pxList : κ) (pxListItem : ι) (m : Lists κ ι) : Bool := m.pvContainer pxListItem = some pxList

end Operations

end YunbaIot.FreeRtosList
