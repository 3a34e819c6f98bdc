import CaptivoAccess.Spec.AuditChain

/-! The audit log as a file of comma-separated values (`lib/audit/query.ts`). -/

namespace Captivo.AuditExport

open Lib.JsonText Captivo.Audit

structure AuditRow where
  timestamp : ℤ
  userEmail : Option Units
  userName : Option Units
  company : Option Units
  siteName : Option Units
  host : Units
  method : Units
  path : Units
  status : ℤ
  bytesOut : Units
  decision : Decision
  reason : Option Units
  clientIp : Option Units

def CSV_HEADER : List Units :=
  [units "timestamp", units "userName", units "userEmail", units "company", units "siteName", units "host", units "method", units "path",
    units "status", units "decision", units "reason", units "clientIp", units "bytesOut"]

/-- `/^[=+\-@\t\r]/`. -/
def needsFormulaGuard (value : Units) : Bool := value.head?.any fun c => c ∈ units "=+-@\t\r"

/-- `/[",\n\r]/`. -/
def needsQuotes (escaped : Units) : Bool := escaped.any fun c => c ∈ units "\",\n\r"

/-- `.replace(/"/g, '""')`. -/
def doubleQuotes (escaped : Units) : Units := escaped.flatMap fun c => if c = 34 then [c, c] else [c]

def guarded (value : Units) : Units := if needsFormulaGuard value then units "'" ++ value else value

def csvEscape (value : Units) : Units :=
  let escaped := guarded value
  if needsQuotes escaped then units "\"" ++ doubleQuotes escaped ++ units "\"" else escaped

section

variable (toISOString : ℤ → Units)

def AuditRow.fields (row : AuditRow) : List Units :=
  [toISOString row.timestamp, row.userName.getD [], row.userEmail.getD [], row.company.getD [], row.siteName.getD [], row.host, row.method,
    row.path, units (toString row.status), row.decision.text, row.reason.getD [], row.clientIp.getD [], row.bytesOut]

def toCsv (rows : List AuditRow) : Units :=
  let lines := (units ",").intercalate CSV_HEADER :: rows.map fun row => (units ",").intercalate ((row.fields toISOString).map csvEscape)
  (units "\r\n").intercalate lines

end

end Captivo.AuditExport
