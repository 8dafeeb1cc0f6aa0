/-
CartridgeAudit/Document/Library.lean

The documentation of a project: the word-processor documents in one directory.
-/
import CartridgeAudit.Document.Archive
import CartridgeAudit.Document.Guide
import CartridgeAudit.Document.Runs
import CartridgeAudit.Project.Corpus

namespace CartridgeAudit.Document

/-- The directory with the documentation. -/
def documentationDir : String := "documentation"

/-- The member of an archive with the body of a document. -/
def bodyMember : String := "word/document.xml"

/-- The text of a document's bytes. A member that is found and cannot be read
is a fault of the file, and not of the archive: its data is unpacked first, then
it has to be text, and then its checksum counts. -/
def textOfBytes (path : Path) (bytes : ByteArray) : Except AuditError Text :=
  match Archive.member bytes bodyMember with
  | .error (.stream .incomplete) => .error (.io .incompleteStream)
  | .error (.stream .corrupt) => .error (.io .badStream)
  | .error f => .error (.archive path.text f.message)
  | .ok xml =>
      match Disk.decode xml.bytes with
      | .error e => .error (.io e)
      | .ok t => if xml.intact then .ok (textRuns t) else .error (.io .badChecksum)

/-- The text of a document. What is no file is no archive either. -/
def extractText (d : Disk) (path : Path) : Except AuditError Text :=
  match d.readBytes path with
  | .error .isDirectory => .error (.archive path.text FileError.isDirectory.message)
  | .error e => .error (.io e)
  | .ok bytes => textOfBytes path bytes

/-- All documents of the documentation directory. There has to be one. -/
def load (c : Corpus) : Audit (List Document) := do
  let files ← c.files ((FileQuery.below documentationDir).withEndings ".docx")
  if files.isEmpty then
    throw (.configuration (.noDocuments (c.root.join ⟨documentationDir⟩).text))
  let texts ← Audit.ofExcept (files.mapM fun f => do return (f.path, ← extractText c.disk f.path))
  return texts.map fun (path, t) => Document.ofText path t c.cartridges

/-- Looks for guides, one document after the other. A guide that covers no
known generation is passed over with a notice when a generation is wanted. -/
def collectGuides (wanted : Option Generation) : List Document → Audit (List Document)
  | [] => return []
  | d :: ds => do
      if d.kind = .guide then
        match wanted with
        | none => return d :: (← collectGuides wanted ds)
        | some g =>
            let coverage := d.coverage.getD .unclassified
            if coverage = .unclassified then
              Audit.notify (.uncoveredGuide d.name)
              collectGuides wanted ds
            else if coverage.covers g then return d :: (← collectGuides wanted ds)
            else collectGuides wanted ds
      else collectGuides wanted ds

/-- The guides that cover a generation, or all guides. There has to be one. -/
def guides (documents : List Document) (wanted : Option Generation) : Audit (List Document) := do
  let found ← collectGuides wanted documents
  if found.isEmpty then
    let kind := match wanted with
      | none => "implementation"
      | some g => g.name
    throw (.configuration (.noGuides kind))
  return found

end CartridgeAudit.Document
