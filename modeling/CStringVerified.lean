import CStringVerified.Ada.Arrays
import CStringVerified.Ada.Proofs.ReadProofs
import CStringVerified.Ada.Proofs.AgreementProofs
import CStringVerified.Ada.Proofs.AddressProofs
import CStringVerified.Ada.Proofs.EncodeProofs
import CStringVerified.Ada.Proofs.RoundTripProofs
import CStringVerified.Ada.Proofs.CharProofs
import CStringVerified.Ada.Proofs.CreationProofs
import CStringVerified.Ada.Proofs.FailureProofs
import CStringVerified.Ada.Proofs.OperationProofs
import CStringVerified.Ada.Proofs.CCallProofs
import CStringVerified.Ada.Proofs.SessionProofs
import CStringVerified.Ada.Proofs.CStrProofs
import CStringVerified.Foundation.FileSystem
import CStringVerified.Install.World
import CStringVerified.Install.Core
import CStringVerified.Install.Buffers
import CStringVerified.Install.Operators
import CStringVerified.Install.Tools
import CStringVerified.Install.Proofs.DryRunProofs
import CStringVerified.Install.Proofs.PathLengthProofs
import CStringVerified.Install.Proofs.BaseNameProofs
import CStringVerified.Install.Proofs.LibnameProofs
import CStringVerified.Ctxt.Proofs.EmbedProofs
import CStringVerified.Install.Proofs.ExitProofs
import CStringVerified.Install.Proofs.OnePathProofs
import CStringVerified.Install.Proofs.CopyProofs
import CStringVerified.Install.Proofs.StageProofs
import CStringVerified.Install.Proofs.StreamProofs
import CStringVerified.Install.Proofs.AbandonedProofs
import CStringVerified.Install.Proofs.AtomicProofs
import CStringVerified.Install.Proofs.RmkdirProofs
import CStringVerified.Install.Proofs.MkdirProofs
import CStringVerified.Install.Proofs.DirectoryProofs
import CStringVerified.Install.Proofs.InstallProofs
import CStringVerified.Conf.Proofs.CallFlagsProofs
import CStringVerified.Sysdeps.Proofs.LockerSerialProofs
import CStringVerified.Sysdeps.Proofs.LockerProgressProofs
import CStringVerified.Sysdeps.Proofs.LockerExitProofs
import CStringVerified.Install.Proofs.InitProofs
import CStringVerified.Install.Proofs.UseProofs
import CStringVerified.Install.Proofs.ReportProofs
import CStringVerified.Install.Proofs.ReturnProofs
import CStringVerified.Install.Proofs.FreshProofs
import CStringVerified.Install.Proofs.UndoProofs
import CStringVerified.Install.Proofs.RecheckProofs
import CStringVerified.Install.Proofs.CalmProofs
import CStringVerified.Install.Proofs.RepeatProofs
import CStringVerified.Install.Proofs.ToolProofs
