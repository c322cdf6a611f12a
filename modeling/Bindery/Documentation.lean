import Bindery.Corpus
import Bindery.Work

/-!
# Attaching documentation

The parser's own comments are not trusted: they are cleared, and every declaration that will be
generated gets the text of the corpus, if the corpus has one. Attaching stops at a declaration that
cannot be looked up, since it or its owner bears a name that is no text.
-/

namespace Bindery

/-- Whether a comment is there to be cleared. -/
def hasComment (l : Label) : Bool := l.comment != .null

/-- Removes every comment. -/
def clearComments (w : Work) : Work :=
  let found := w.tree.survey.countP fun x => hasComment x.label
  { w with tree := w.tree.relabel fun _ l => { l with comment := .null } }.countSome "cleared" found

/-- Whether a declaration is to be documented. -/
def isDocumentable (s : Site) (l : Label) : Bool := !l.form.isUnit && s.isGenerated l

/-- The label with the text of the corpus, if it is to be documented and there is one. -/
def documentedLabel (corpus : Corpus) (s : Site) (l : Label) : Label :=
  if isDocumentable s l then
    match corpus.lookupAt s l with
    | .ok (some text) => { l with comment := .text text }
    | _ => l
  else l

/-- Whether the corpus has a text for a declaration. -/
def isDocumented (corpus : Corpus) (x : Located) : Bool :=
  match corpus.lookupAt x.site x.label with
  | .ok found => found.isSome
  | .error _ => false

/-- Where attaching stops: at the first declaration to be documented that cannot be looked up. -/
def documentationStop? (corpus : Corpus) (wanted : List Located) : Option Stop :=
  Stop.first? (fun x => Fault.of? (corpus.lookupAt x.site x.label)) wanted

/-- Attaches the corpus to the declarations that will be generated. -/
def backfillComments (corpus : Corpus) (w : Work) : Work :=
  let wanted := w.tree.survey.filter fun x => isDocumentable x.site x.label
  let stop := documentationStop? corpus wanted
  let reached := wanted.filter fun x => x.site.isBefore stop
  let found := reached.countP (isDocumented corpus)
  let tree := w.tree.relabel fun s l => if s.isBefore stop then documentedLabel corpus s l else l
  (({ w with tree }.countSome "documented" found).countSome "undocumented"
    (reached.length - found)).stopAt stop

end Bindery
