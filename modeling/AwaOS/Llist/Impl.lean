import Mathlib.Logic.Function.Basic

/-!
The intrusive list of `awa/ds/llist.h`.
-/

namespace AwaOS

/--
`struct llist_header`
-/
@[ext]
structure LlistHeader (α : Type) where
  prev : α
  next : α
  deriving DecidableEq

variable {α : Type} [DecidableEq α]

/--
`elem->next = next`
-/
def setNext (m : α → LlistHeader α) (elem next : α) : α → LlistHeader α :=
  Function.update m elem { m elem with next := next }

/--
`elem->prev = prev`
-/
def setPrev (m : α → LlistHeader α) (elem prev : α) : α → LlistHeader α :=
  Function.update m elem { m elem with prev := prev }

def llistAdd (m : α → LlistHeader α) (elem prev next : α) : α → LlistHeader α :=
  let m := setPrev m next elem
  let m := setNext m elem next
  let m := setPrev m elem prev
  setNext m prev elem

def llistInitHead (m : α → LlistHeader α) (head : α) : α → LlistHeader α :=
  let m := setNext m head head
  setPrev m head head

def llistAppend (m : α → LlistHeader α) (head elem : α) : α → LlistHeader α :=
  llistAdd m elem head (m head).next

def llistPrepend (m : α → LlistHeader α) (head elem : α) : α → LlistHeader α :=
  llistAdd m elem (m head).prev head

def llistDelete (m : α → LlistHeader α) (elem : α) : α → LlistHeader α :=
  let m := setNext m (m elem).prev (m elem).next
  let m := setPrev m (m elem).next (m elem).next
  -- make elem orphaned
  let m := setPrev m elem elem
  setNext m elem elem

end AwaOS
