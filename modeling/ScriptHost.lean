import ScriptHost.Case.Run
import ScriptHost.Proofs.CallReport
import ScriptHost.Proofs.CallScript
import ScriptHost.Proofs.Calls
import ScriptHost.Proofs.CaseRun
import ScriptHost.Proofs.Codes
import ScriptHost.Proofs.Dispatch
import ScriptHost.Proofs.FrameDump
import ScriptHost.Proofs.HostCall
import ScriptHost.Proofs.LastError
import ScriptHost.Proofs.Lifecycle
import ScriptHost.Proofs.Location
import ScriptHost.Proofs.Logging
import ScriptHost.Proofs.Machine.MethodScript
import ScriptHost.Proofs.NamespaceCall
import ScriptHost.Proofs.NumberReport
import ScriptHost.Proofs.Parsing
import ScriptHost.Proofs.Presentation
import ScriptHost.Proofs.Provenance
import ScriptHost.Proofs.Publication
import ScriptHost.Proofs.Recording
import ScriptHost.Proofs.Registration
import ScriptHost.Proofs.Reload
import ScriptHost.Proofs.Results
import ScriptHost.Proofs.Scanner
import ScriptHost.Proofs.Settings
import ScriptHost.Proofs.Setup
import ScriptHost.Proofs.SourceFiles
import ScriptHost.Proofs.Verdict
