import VerilogDecl.BlockItem
import VerilogDecl.ForInit
import VerilogDecl.ModuleItem.Reading
import VerilogDecl.Place
import VerilogDecl.PortList
import VerilogDecl.Proofs.ArraySize
import VerilogDecl.Proofs.BareNames
import VerilogDecl.Proofs.BlockItemShape
import VerilogDecl.Proofs.DimensionRun
import VerilogDecl.Proofs.ExprReading
import VerilogDecl.Proofs.FirstFault
import VerilogDecl.Proofs.ForAssignList
import VerilogDecl.Proofs.ForInitItems
import VerilogDecl.Proofs.GroupStretches
import VerilogDecl.Proofs.GroupWriting
import VerilogDecl.Proofs.ImproperAssign
import VerilogDecl.Proofs.Instantiation
import VerilogDecl.Proofs.ItemCount
import VerilogDecl.Proofs.LeadingAssign
import VerilogDecl.Proofs.Lookahead
import VerilogDecl.Proofs.ModuleDecls
import VerilogDecl.Proofs.NameOpacity
import VerilogDecl.Proofs.PassedDirections
import VerilogDecl.Proofs.PlaceIndependence
import VerilogDecl.Proofs.PlaceProgress
import VerilogDecl.Proofs.PrintedText
import VerilogDecl.Proofs.ReaderSuccess
import VerilogDecl.Proofs.ReportPlace
import VerilogDecl.Proofs.TargetIdentity
import VerilogDecl.Proofs.TraceMarkers
import VerilogDecl.Report
