import Shiplog.Page

/-!
Records and the pages that carry them. A record that fits one page is a whole
page; a longer one is split into a start page, middle pages and a last page
(`Record.split`). An assembly reads pages in order and gives back the records.
-/
namespace Shiplog

namespace Record

/-- The pieces of a split record with their kinds: the last piece is marked as
    such, the first one as the start, and the rest as middle pieces. -/
def label : Page.Kind → List Bytes → List (Page.Kind × Bytes)
  | _, [] => []
  | _, [piece] => [(.last, piece)]
  | kind, piece :: rest => (kind, piece) :: label .middle rest

/-- The kinds and payloads of the pages that carry a record. -/
def split (record : Bytes) : List (Page.Kind × Bytes) :=
  if record.length ≤ Page.capacity then [(.whole, record)]
  else label .start (record.chunks Page.capacity)

end Record

/-- What an assembly holds between two pages: the pieces of the open record, and
    whether a page that starts a record has been seen. -/
structure Assembly where
  pending : Option Bytes
  synced : Bool
  deriving DecidableEq

namespace Assembly

def empty : Assembly := ⟨none, false⟩

/-- A page that cannot follow the pages before it. -/
inductive Breach where
  /-- A whole record while a split record is open. -/
  | wholeInside
  /-- A second start while a split record is open. -/
  | startInside
  /-- A further piece while no split record is open. -/
  | orphan (kind : Page.Kind)
  deriving DecidableEq

/-- The text that reports a page out of place. -/
def Breach.text : Breach → String
  | wholeInside => "whole page inside an open split record"
  | startInside => "start page inside an open split record"
  | orphan kind => kind.name ++ " page without a start page"

/-- Takes the next page and gives the record that it completes, if it completes
    one. Pieces before the first record's start are passed over, since a log may
    be read from the middle of a split record; a broken end voids the open record. -/
def push (a : Assembly) (kind : Page.Kind) (payload : Bytes) : Except Breach (Option Bytes) × Assembly :=
  match kind, a.pending with
  -- The open record is lost here, and kept by a second start.
  | .whole, some _ => (.error .wholeInside, ⟨none, true⟩)
  | .whole, none => (.ok (some payload), ⟨none, true⟩)
  | .start, some opened => (.error .startInside, ⟨some opened, true⟩)
  | .start, none => (.ok none, ⟨some payload, true⟩)
  | .middle, some opened => (.ok none, ⟨some (opened ++ payload), a.synced⟩)
  | .last, some opened => (.ok (some (opened ++ payload)), ⟨none, a.synced⟩)
  | .middle, none => (if a.synced then .error (.orphan .middle) else .ok none, a)
  | .last, none => (if a.synced then .error (.orphan .last) else .ok none, a)
  | .brokenEnd, _ => (.ok none, ⟨none, a.synced⟩)

/-- What each of some pages gives, pushed in order. -/
def pushAll : Assembly → List (Page.Kind × Bytes) → List (Except Breach (Option Bytes))
  | _, [] => []
  | a, (kind, payload) :: rest =>
    let (result, next) := a.push kind payload
    result :: next.pushAll rest

end Assembly
end Shiplog
